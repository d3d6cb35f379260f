import LiveMigration.Proofs.Hosts.Execution

/-!
# Delivery

Where a transfer brings an archive. The address of the target is the one by which the controller knows it, but
the command runs on the source, and there the address of the controller is that of the source itself.
-/

namespace LiveMigration

inductive Machine
  | controller
  | remote (address : String)
  deriving DecidableEq, Repr

/-- The machine that an address stands for where it is used. -/
def Machine.reach (m : Machine) (address : String) : Machine :=
  if address = "localhost" then m else .remote address

def Host.machine (h : Host) : Machine := Machine.controller.reach h.ssh

section Machines

variable {source target h : Host}

theorem Host.machine_of_isLocal (hl : h.isLocal = true) : h.machine = .controller := by
  simp_all [machine, Machine.reach, isLocal]

theorem Host.machine_of_remote (hl : h.isLocal = false) : h.machine = .remote h.ssh := by
  simp_all [machine, Machine.reach, isLocal]

theorem Host.reach_ssh (source target : Host) : source.machine.reach target.ssh =
    if target.isLocal = true then source.machine else target.machine := by
  simp only [machine, Machine.reach, isLocal, decide_eq_true_eq]
  split
  · rfl
  · rfl

end Machines

namespace Shell

def ranOn? : (invocation : String × List String) → Option Machine
  | ("sh", _) => some .controller
  | ("ssh", arguments) => arguments.dropLast.getLast?.map Machine.controller.reach
  | _ => none

theorem ranOn?_invocation (h : Host) (command : String) : ranOn? (invocation h command) = some h.machine := by
  cases hl : h.isLocal with
  | true => simp [invocation, hl, ranOn?, Host.machine_of_isLocal hl]
  | false => simp [invocation, hl, ranOn?, Host.machine]

end Shell

namespace Hosts

open Shell

theorem sends_host_bind {r : Reach} {k : Host → Session α} {Q : Host → Command → Prop}
    (h : r.inventory.get name = .ok host) : (r.host name >>= k).Sends Q ↔ (k host).Sends Q := by
  rw [Reach.host, h]
  rfl

theorem sends_transfer {r : Reach} {s : Snapshot} {source target : Host}
    (hs : r.inventory.get s.host = .ok source) (ht : r.inventory.get name = .ok target) :
    (transfer r s name).Sends fun host command =>
      host = source ∧ transferCommand? source target s.path (destination s target) = some command := by
  rw [transfer, sends_host_bind hs, sends_host_bind ht]
  dsimp only
  cases hcommand : transferCommand? source target s.path (destination s target) with
  | none => trivial
  | some command =>
    refine Session.Sends.bind (p := perform r s.host command) ?_ fun _ => trivial
    by_cases hstarts : ∃ host, r.Starts s.host command host
    · obtain ⟨host, hstarts⟩ := hstarts
      obtain ⟨next, hperform, -⟩ := perform_of_starts hstarts
      rw [hperform]
      exact ⟨⟨Except.ok.inj (hstarts.1.symm.trans hs), rfl⟩, fun _ => trivial⟩
    · obtain ⟨e, hperform⟩ := perform_of_not_starts (not_exists.1 hstarts)
      rw [hperform]
      trivial

end Hosts

/-- The files of all machines. Paths may name the same file though they look different, as by a link. -/
structure Disks (F α : Type) where
  file : Machine → String → F
  file_congr (m : Machine) {p q : String} (h : Path.same p q = true) : file m p = file m q
  content : Machine → F → Option α

namespace Disks

open Shell Hosts

variable {F α : Type} [DecidableEq F]

def read (d : Disks F α) (m : Machine) (p : String) : Option α := d.content m (d.file m p)

def write (d : Disks F α) (m : Machine) (p : String) (x : α) : Disks F α :=
  { d with content := fun n f => if n = m ∧ f = d.file m p then some x else d.content n f }

def copied? (d : Disks F α) (m : Machine) : Command → Option (Disks F α)
  | .copy p q => if d.file m p = d.file m q then none else (d.read m p).map (d.write m q)
  | .secureCopy p address q => (d.read m p).map (d.write (m.reach address) q)
  | _ => none

def transferred? (d : Disks F α) (source target : Host) (path destination : String) : Option (Disks F α) :=
  match transferCommand? source target path destination with
  | none => some d
  | some command => (ranOn? (invocation source command.text)).bind fun m => d.copied? m command

variable {d d' : Disks F α} {m n : Machine} {p q path destination : String} {x archive : α}
  {source target : Host}

@[simp] theorem read_write_self : (d.write m p x).read m p = some x := by simp [read, write]

theorem read_write_of_ne (h : ¬ (n = m ∧ d.file n q = d.file m p)) : (d.write m p x).read n q = d.read n q :=
  if_neg h

theorem transferred?_of_none (h : transferCommand? source target path destination = none) :
    d.transferred? source target path destination = some d := by
  rw [transferred?, h]

theorem transferred?_of_some (h : transferCommand? source target path destination = some command) :
    d.transferred? source target path destination = d.copied? source.machine command := by
  rw [transferred?, h]
  simp only [ranOn?_invocation, Option.bind_some]

theorem transferCommand?_eq_none_iff : transferCommand? source target path destination = none ↔
    source.name = target.name ∧ Path.same path destination = true := by
  rw [transferCommand?]
  split
  · next h => simp [h]
  · next h => split <;> simp [h]

theorem transferred?_eq_none_iff (hd : d.read source.machine path = some archive) :
    d.transferred? source target path destination = none ↔
      source.isLocal = true ∧ target.isLocal = true ∧
        ¬ (source.name = target.name ∧ Path.same path destination = true) ∧
        d.file .controller path = d.file .controller destination := by
  by_cases hplace : source.name = target.name ∧ Path.same path destination = true
  · rw [transferred?_of_none (transferCommand?_eq_none_iff.2 hplace)]
    simp [hplace]
  · by_cases hl : source.isLocal = true ∧ target.isLocal = true
    · have hcommand : transferCommand? source target path destination = some (.copy path destination) := by
        rw [transferCommand?, if_neg hplace, if_pos hl]
      rw [transferred?_of_some hcommand, copied?, hd, Host.machine_of_isLocal hl.1]
      simp [hl, hplace]
    · have hcommand : transferCommand? source target path destination =
          some (.secureCopy path target.ssh destination) := by
        rw [transferCommand?, if_neg hplace, if_neg hl]
      rw [transferred?_of_some hcommand, copied?, hd]
      simp only [Option.map_some, reduceCtorEq, false_iff]
      exact fun h => hl ⟨h.1, h.2.1⟩

theorem eq_write_of_transferred? (hd : d.read source.machine path = some archive)
    (hcommand : transferCommand? source target path destination = some command)
    (h : d.transferred? source target path destination = some d') :
    d' = d.write (source.machine.reach target.ssh) destination archive := by
  rw [transferred?_of_some hcommand] at h
  rcases transferCommand?_cases hcommand with ⟨hl, rfl⟩ | rfl
  · simp only [copied?, hd, Option.map_some] at h
    split at h
    · cases h
    · cases h
      rw [Host.reach_ssh, if_pos hl]
  · simp only [copied?, hd, Option.map_some] at h
    cases h
    rfl

/-- What is written there is on the machine of the target unless a remote source writes for the controller. -/
theorem read_target_write : (d.write (source.machine.reach target.ssh) destination archive).read target.machine
      destination = some archive ↔
    source.isLocal = true ∨ target.isLocal = false ∨ d.read target.machine destination = some archive := by
  rw [Host.reach_ssh]
  cases ht : target.isLocal with
  | false => simp
  | true =>
    cases hs : source.isLocal with
    | true => simp [Host.machine_of_isLocal hs, Host.machine_of_isLocal ht]
    | false =>
      have hne : Machine.controller ≠ .remote source.ssh := nofun
      rw [if_pos rfl, Host.machine_of_isLocal ht, Host.machine_of_remote hs, read_write_of_ne fun h => hne h.1]
      simp

/-- Between two hosts of an inventory, an archive comes to lie on the machine of the target unless the source
is remote and the target is not, when it stays on the source, or the controller is to copy a file onto itself,
when the transfer fails. Only a transfer within one host, to the same path, runs no command. -/
theorem transfer_reaches_target_iff {i : Inventory} (hs : i.get a = .ok source) (ht : i.get b = .ok target)
    (hd : d.read source.machine path = some archive) :
    (transferCommand? source target path destination = none ↔ a = b ∧ Path.same path destination = true) ∧
    (d.transferred? source target path destination = none ↔
      source.isLocal = true ∧ target.isLocal = true ∧ ¬ (a = b ∧ Path.same path destination = true) ∧
        d.file .controller path = d.file .controller destination) ∧
    ∀ d', d.transferred? source target path destination = some d' →
      (d'.read target.machine destination = some archive ↔
        source.isLocal = true ∨ target.isLocal = false ∨ d.read target.machine destination = some archive) ∧
      let m := if target.isLocal = true then source.machine else target.machine
      d'.read m destination = some archive ∧
        ∀ n p, ¬ (n = m ∧ d.file n p = d.file m destination) → d'.read n p = d.read n p := by
  rw [← Host.reach_ssh, ← Inventory.name_of_get hs, ← Inventory.name_of_get ht]
  refine ⟨transferCommand?_eq_none_iff, transferred?_eq_none_iff hd, fun d' hd' => ?_⟩
  cases hcommand : transferCommand? source target path destination with
  | some command =>
    obtain rfl := eq_write_of_transferred? hd hcommand hd'
    exact ⟨read_target_write, read_write_self, fun n p => read_write_of_ne⟩
  | none =>
    have hplace := transferCommand?_eq_none_iff.1 hcommand
    -- One name in an inventory is one host, so that nothing had to be moved.
    obtain rfl : source = target := by
      rw [Inventory.name_of_get hs, Inventory.name_of_get ht] at hplace
      rw [hplace.1, ht] at hs
      exact Except.ok.inj hs.symm
    obtain rfl : d = d' := Option.some.inj ((transferred?_of_none hcommand).symm.trans hd')
    have hthere : d.read source.machine destination = some archive := by
      rwa [read, ← d.file_congr source.machine hplace.2]
    have hreach : source.machine.reach source.ssh = source.machine := by rw [Host.reach_ssh, ite_self]
    rw [hreach]
    exact ⟨by simp [hthere], hthere, fun _ _ _ => rfl⟩

def single (m : Machine) (p : String) (x : α) : Disks Path.Components α :=
  write ⟨fun _ => Path.components, fun _ _ _ h => of_decide_eq_true h, fun _ _ => none⟩ m p x

theorem archive_reaches_remote_target :
    let source : Host := ⟨"host-a", "localhost", 1, "eth0", "/ckpt"⟩
    let target : Host := ⟨"host-b", "root@10.10.0.2", 2, "eth0", "/ckpt"⟩
    let d := single source.machine "/ckpt/x.tar" 7
    ∃ d', d.transferred? source target "/ckpt/x.tar" "/ckpt/./x.tar" = some d' ∧
      d'.read target.machine "/ckpt/./x.tar" = some 7 := by
  intro source target d
  let i : Inventory := ⟨[source, target]⟩
  have hs : i.get "host-a" = .ok source := rfl
  have ht : i.get "host-b" = .ok target := rfl
  have hd : d.read source.machine "/ckpt/x.tar" = some 7 := read_write_self
  cases h : d.transferred? source target "/ckpt/x.tar" "/ckpt/./x.tar" with
  | none =>
    obtain ⟨-, htarget, -⟩ := (transfer_reaches_target_iff hs ht hd).2.1.1 h
    exact absurd htarget (by decide)
  | some d' =>
    obtain ⟨hreads, -⟩ := (transfer_reaches_target_iff hs ht hd).2.2 d' h
    exact ⟨d', rfl, hreads.2 (.inr (.inl (by decide)))⟩

/-- A file is copied onto itself between two names of the controller; and a remote host keeps what it sends to
the controller, with nobody told. -/
theorem controller_not_reached :
    let first : Host := ⟨"host-a", "localhost", 1, "eth0", "/ckpt"⟩
    let second : Host := ⟨"host-b", "localhost", 2, "eth0", "/ckpt"⟩
    let remote : Host := ⟨"host-c", "root@10.10.0.3", 3, "eth0", "/ckpt"⟩
    let path := "/ckpt/x.tar"
    let s : Snapshot := ⟨"x", ⟨167772171⟩, "host-c", path, 7, ⟨0, 0⟩⟩
    let r : Reach := ⟨⟨[first, second, remote]⟩, 60000⟩
    (first.machine = second.machine ∧ transferCommand? first second path path = some (.copy path path) ∧
      ((single first.machine path 7).transferred? first second path path).isNone = true) ∧
    ((transfer r s "host-a").play [] = (.ok (s.deliveredTo "host-a" path),
        [(remote, .secureCopy path "localhost" path)]) ∧
      ((single remote.machine path 7).transferred? remote first path path).any
        (fun d => d.read first.machine path = none) = true) := by
  decide

end Disks

end LiveMigration
