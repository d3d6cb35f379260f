namespace LiveMigration.Checksum

abbrev Register := BitVec 32

/-- The polynomial `0x1EDC6F41` with its bits reversed. -/
def polynomial : Register := 0x82F63B78#32

def shift (r : Register) : Register :=
  if r.getLsbD 0 then (r >>> 1) ^^^ polynomial else r >>> 1

def feed (r : Register) (b : Bool) : Register := shift (r ^^^ (BitVec.ofBool b).setWidth 32)

def bitsOfByte (b : UInt8) : List Bool := (List.range 8).map b.toBitVec.getLsbD

def bits (message : List UInt8) : List Bool := message.flatMap bitsOfByte

def run (r : Register) (message : List Bool) : Register := message.foldl feed r

def crc32c (message : List UInt8) : UInt32 := ⟨~~~ run (BitVec.allOnes 32) (bits message)⟩

@[simp] theorem run_nil (r : Register) : run r [] = r := rfl

@[simp] theorem run_cons (r : Register) (b : Bool) (l : List Bool) :
    run r (b :: l) = run (feed r b) l := rfl

theorem run_append (r : Register) (l m : List Bool) : run r (l ++ m) = run (run r l) m :=
  List.foldl_append

end LiveMigration.Checksum
