namespace LiveMigration.Shell

def isSafe (c : Char) : Bool :=
  c.isAlphanum || ['-', '_', '.', '/', ':', '=', '@', '%', '+', ','].contains c

def quoteChar (c : Char) : List Char := if c = '\'' then ['\'', '\\', '\'', '\''] else [c]

def quote (s : List Char) : List Char :=
  if s ≠ [] ∧ s.all isSafe then s else '\'' :: s.flatMap quoteChar ++ ['\'']

def quoteString (s : String) : String := String.ofList (quote s.toList)

end LiveMigration.Shell
