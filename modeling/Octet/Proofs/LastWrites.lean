import Octet.Proofs.BlockCopy

/-!
# Last writes

What a memory holds after any operations in any order. A cell holds the byte that was put there last
since the last reset, and a byte that a copy put there is followed back to where it came from. The
note names the cell that was accessed last. Operations that fail count for neither. They are carried
out in place here, so that what they do before they fail would stay done.
-/
namespace Octet

open Results

/-- An operation on memory. Addresses and counts are words of 64 bits. -/
inductive Memory.Operation where
  | load (address : UInt64)
  | store (address : UInt64) (byte : UInt8)
  | copy (target source count : UInt64)
  | loadImage (image : List UInt8)
  | reset
  deriving DecidableEq

/-- What is put into a cell: a byte, or the byte that another cell holds just before. -/
inductive Memory.Origin where
  | byte (value : UInt8)
  | cell (address : ℕ)
  deriving DecidableEq

namespace Memory.Operation

/-- The operation succeeds. What memory holds does not matter for that. -/
def Succeeds : Operation → Prop
  | load address | store address _ => address.toNat < 256
  | copy target source count => HasRange target.toNat count.toNat ∧
      HasRange source.toNat count.toNat ∧ ¬ Overlap target.toNat source.toNat count.toNat
  | loadImage image => image.length ≤ 256
  | reset => True

instance : (operation : Operation) → Decidable operation.Succeeds
  | load _ | store _ _ => inferInstanceAs (Decidable (_ < _))
  | copy _ _ _ => inferInstanceAs (Decidable (_ ∧ _))
  | loadImage _ => inferInstanceAs (Decidable (_ ≤ _))
  | reset => inferInstanceAs (Decidable True)

/-- What the operation puts into a cell, if it puts anything there. -/
def origin? : Operation → ℕ → Option Origin
  | load _, _ => none
  | store address byte, a => if a = address.toNat then some (.byte byte) else none
  | copy target source count, a =>
    if target.toNat ≤ a ∧ a < target.toNat + count.toNat then
      some (.cell (source.toNat + (a - target.toNat)))
    else none
  | loadImage image, a => (image[a]?).map .byte
  | reset, _ => some (.byte 0)

/-- The cell that the operation accesses. Loading an image is no access. -/
def access? : Operation → Option ℕ
  | load address | store address _ => some address.toNat
  | copy target _ count =>
    if count.toNat = 0 then none else some (target.toNat + count.toNat - 1)
  | loadImage _ | reset => none

end Memory.Operation

open Memory (Operation Origin)

/-! ### Operations -/

/-- What an operation answers and what it leaves. Only a load answers with a byte. -/
def Memory.apply (memory : Memory) : Operation → Except MemoryError (Option UInt8 × Memory)
  | .load address => (memory.load address.toNat).map fun (byte, memory) => (some byte, memory)
  | .store address byte => (memory.store address.toNat byte).map (none, ·)
  | .copy target source count =>
    (memory.copy target.toNat source.toNat count.toNat).map (none, ·)
  | .loadImage image => (memory.loadImage image).map (none, ·)
  | .reset => .ok (none, memory.reset)

namespace Words

def checkAddress (address : UInt64) : Work Unit :=
  if address < 256 then pure () else refuse (.accessViolation address.toNat)

def readCell (address : UInt64) : Work UInt8 := do
  if h : address.toNat < 256 then return (← get).cell ⟨address.toNat, h⟩ else throw .trapped

def writeCell (address : UInt64) (byte : UInt8) : Work Unit :=
  if h : address.toNat < 256 then
    modify fun memory => { memory with cells := memory.cells.set address.toNat byte h }
  else throw .trapped

def load (address : UInt64) : Work UInt8 := do
  checkAddress address
  touch address
  readCell address

def store (address : UInt64) (byte : UInt8) : Work Unit := do
  checkAddress address
  touch address
  writeCell address byte

def loadImage (image : List UInt8) : Work Unit := do
  if 256 < image.length then refuse (.accessViolation (image.length - 1))
  modify fun memory =>
    { memory with cells := Vector.ofFn fun a => (image[a.val]?).getD (memory.cell a) }

def reset : Work Unit := do
  modify ({ · with cells := Vector.replicate 256 0 })
  modify ({ · with lastAccess := none })

def apply : Operation → Work (Option UInt8)
  | .load address => do return some (← load address)
  | .store address byte => do store address byte; return none
  | .copy target source count => do copy target source count; return none
  | .loadImage image => do loadImage image; return none
  | .reset => do reset; return none

/-- What is left of memory when an operation is over, with or without success. -/
def left (memory : Memory) (operation : Operation) : Memory :=
  match (apply operation).run memory with
  | .ok _ memory | .error _ memory => memory

variable {address : UInt64}

lemma run_checkAddress (h : address.toNat < 256) (memory : Memory) :
    (checkAddress address).run memory = .ok () memory := by
  rw [checkAddress, if_pos (UInt64.lt_iff_toNat_lt.mpr h)]
  rfl

lemma run_checkAddress_of_not (h : ¬ address.toNat < 256) (memory : Memory) :
    (checkAddress address).run memory =
      .error (.refused (.accessViolation address.toNat)) memory := by
  rw [checkAddress, if_neg fun hlt => h (UInt64.lt_iff_toNat_lt.mp hlt)]
  rfl

theorem run_load (address : UInt64) (memory : Memory) : (load address).run memory =
    match memory.load address.toNat with
    | .ok (byte, memory') => .ok byte memory'
    | .error error => .error (.refused error) memory := by
  unfold load Memory.load
  by_cases h : address.toNat < 256
  · rw [dif_pos h, run_bind_ok (run_checkAddress h memory), run_bind_ok (run_touch h memory),
      readCell, dif_pos h]
    rfl
  · rw [dif_neg h, run_bind_error (run_checkAddress_of_not h memory)]

theorem run_store (address : UInt64) (byte : UInt8) (memory : Memory) :
    (store address byte).run memory =
      match memory.store address.toNat byte with
      | .ok memory' => .ok () memory'
      | .error error => .error (.refused error) memory := by
  unfold store Memory.store
  by_cases h : address.toNat < 256
  · rw [dif_pos h, run_bind_ok (run_checkAddress h memory), run_bind_ok (run_touch h memory),
      writeCell, dif_pos h]
    rfl
  · rw [dif_neg h, run_bind_error (run_checkAddress_of_not h memory)]

theorem run_loadImage (image : List UInt8) (memory : Memory) : (loadImage image).run memory =
    match memory.loadImage image with
    | .ok memory' => .ok () memory'
    | .error error => .error (.refused error) memory := by
  unfold loadImage Memory.loadImage
  by_cases h : image.length ≤ 256
  · rw [if_pos h, if_neg (not_lt.mpr h)]
    rfl
  · rw [if_neg h, if_pos (not_le.mp h)]
    rfl

/-- Work without an answer, as an operation that answers with no byte. -/
lemma run_silent {work : Work Unit} {memory : Memory} {result : Except MemoryError Memory}
    (h : work.run memory = match result with
      | .ok memory' => .ok () memory'
      | .error error => .error (.refused error) memory) :
    (do work; return none : Work (Option UInt8)).run memory =
      match result.map ((none : Option UInt8), ·) with
      | .ok (answer, memory') => .ok answer memory'
      | .error error => .error (.refused error) memory := by
  cases result with
  | ok memory' => exact run_bind_ok h
  | error error => exact run_bind_error h

/-- In place an operation does what it does on a memory that is passed on, and nothing at all if it
fails. -/
theorem run_apply (operation : Operation) (memory : Memory) : (apply operation).run memory =
    match memory.apply operation with
    | .ok (answer, memory') => .ok answer memory'
    | .error error => .error (.refused error) memory := by
  cases operation with
  | load address =>
    have hrun := run_load address memory
    simp only [apply, Memory.apply]
    cases hresult : memory.load address.toNat with
    | ok result =>
      rw [hresult] at hrun
      exact run_bind_ok hrun
    | error error =>
      rw [hresult] at hrun
      exact run_bind_error hrun
  | store address byte => exact run_silent (run_store address byte memory)
  | copy target source count => exact run_silent (run_copy target source count memory)
  | loadImage image => exact run_silent (run_loadImage image memory)
  | reset => rfl

end Words

/-! ### What an operation changes -/

namespace Memory

variable {memory memory' : Memory} {operation : Operation} {answer : Option UInt8}
  {error : MemoryError} {history before later : List Operation} {a : ℕ} {byte : UInt8}

/-- The byte at a place in a memory that an operation has been carried out on, told from the memory
before. -/
def Origin.fetch (memory : Memory) (a : ℕ) : Option Origin → UInt8
  | none => memory.byteAt a
  | some (.byte value) => value
  | some (.cell address) => memory.byteAt address

lemma byteAt_initial (a : ℕ) : initial.byteAt a = 0 := by
  by_cases h : a < 256
  · rw [byteAt_of_lt _ h, cell_initial]
  · simp [byteAt, initial, h]

lemma byteAt_write (memory : Memory) (address : Address) (byte : UInt8) (a : ℕ) :
    (memory.write address byte).byteAt a = if a = address.val then byte else memory.byteAt a := by
  by_cases h : a < 256
  · rw [byteAt_of_lt _ h, byteAt_of_lt _ h, cell_write]
    simp only [Fin.ext_iff, eq_comm]
  · have hne : a ≠ address.val := fun heq => h (heq ▸ address.isLt)
    simp [byteAt, hne, h]

/-- An operation that succeeds puts into the cells what it says, and leaves the others. The note
names the cell it accesses. -/
structure Applied (memory memory' : Memory) (operation : Operation) : Prop where
  byteAt : ∀ a, memory'.byteAt a = Origin.fetch memory a (operation.origin? a)
  note : memory'.lastAccess.map Fin.val =
    if operation = .reset then none else operation.access?.or (memory.lastAccess.map Fin.val)

lemma applied_loadImage {image : List UInt8} (h : image.length ≤ 256) (memory : Memory) :
    Applied memory { memory with
      cells := Vector.ofFn fun a => (image[a.val]?).getD (memory.cell a) } (.loadImage image) := by
  refine ⟨fun a => ?_, by simp [Operation.access?]⟩
  by_cases ha : a < 256
  · rw [byteAt_of_lt _ ha]
    simp only [cell, Fin.getElem_fin, Vector.getElem_ofFn, Operation.origin?]
    cases image[a]? with
    | none => exact (byteAt_of_lt memory ha).symm
    | some byte => rfl
  · have himage : image[a]? = none := List.getElem?_eq_none (by omega)
    simp [Operation.origin?, himage, Origin.fetch, byteAt, ha]

lemma applied_copy {target source count : UInt64}
    (h : BlockCopied memory memory' target.toNat source.toNat count.toNat) :
    Applied memory memory' (.copy target source count) := by
  refine ⟨fun a => ?_, ?_⟩
  · by_cases ha : target.toNat ≤ a ∧ a < target.toNat + count.toNat
    · obtain ⟨i, rfl⟩ := Nat.exists_eq_add_of_le ha.1
      rw [h.moved i (by omega), Operation.origin?, if_pos ha, Nat.add_sub_cancel_left]
      rfl
    · rw [h.kept a ha, Operation.origin?, if_neg ha]
      rfl
  · have hreset : Operation.copy target source count ≠ .reset := nofun
    rw [h.note, if_neg hreset, Operation.access?]
    split_ifs <;> rfl

/-- Whether an operation succeeds is told from the operation alone. -/
theorem exists_applied (h : operation.Succeeds) (memory : Memory) : ∃ answer memory',
    memory.apply operation = .ok (answer, memory') ∧ Applied memory memory' operation := by
  cases operation with
  | load address =>
    have hlt : address.toNat < 256 := h
    refine ⟨some (memory.cell ⟨address.toNat, hlt⟩), memory.touch ⟨address.toNat, hlt⟩, ?_,
      fun a => rfl, rfl⟩
    rw [apply, load, dif_pos hlt]
    rfl
  | store address byte =>
    have hlt : address.toNat < 256 := h
    refine ⟨none, memory.write ⟨address.toNat, hlt⟩ byte, ?_, fun a => ?_, rfl⟩
    · rw [apply, store, dif_pos hlt]
      rfl
    · rw [byteAt_write, Operation.origin?]
      split_ifs <;> rfl
  | copy target source count =>
    obtain ⟨htarget, hsource, hapart⟩ := h
    obtain ⟨memory', hok, hcopied⟩ := exists_blockCopied htarget hsource hapart memory
    exact ⟨none, memory', by rw [apply, hok]; rfl, applied_copy hcopied⟩
  | loadImage image =>
    have hfits : image.length ≤ 256 := h
    exact ⟨none, _, by rw [apply, loadImage, if_pos hfits]; rfl, applied_loadImage hfits memory⟩
  | reset => exact ⟨none, initial, rfl, byteAt_initial, rfl⟩

theorem exists_apply_error (h : ¬ operation.Succeeds) (memory : Memory) :
    ∃ error, memory.apply operation = .error error := by
  cases operation with
  | load address =>
    have hge : ¬ address.toNat < 256 := h
    exact ⟨_, by rw [apply, load, dif_neg hge]; rfl⟩
  | store address byte =>
    have hge : ¬ address.toNat < 256 := h
    exact ⟨_, by rw [apply, store, dif_neg hge]; rfl⟩
  | copy target source count =>
    rw [apply, copy_error_iff.mpr ⟨h, rfl⟩]
    exact ⟨_, rfl⟩
  | loadImage image =>
    have hlong : ¬ image.length ≤ 256 := h
    exact ⟨_, by rw [apply, loadImage, if_neg hlong]; rfl⟩
  | reset => exact absurd trivial h

theorem exists_apply_ok_iff :
    (∃ result, memory.apply operation = .ok result) ↔ operation.Succeeds := by
  constructor
  · rintro ⟨result, hok⟩
    by_contra h
    obtain ⟨error, herror⟩ := exists_apply_error h memory
    rw [hok] at herror
    cases herror
  · intro h
    obtain ⟨answer, memory', hok, -⟩ := exists_applied h memory
    exact ⟨_, hok⟩

/-! ### Histories -/

/-- Memory behind an operation. One that fails changes nothing. -/
def next (memory : Memory) (operation : Operation) : Memory :=
  match memory.apply operation with
  | .ok (_, memory') => memory'
  | .error _ => memory

/-- Memory behind operations that have been carried out on a new one. -/
def after (history : List Operation) : Memory := history.foldl next initial

lemma applied_next (h : operation.Succeeds) (memory : Memory) :
    Applied memory (memory.next operation) operation := by
  obtain ⟨answer, memory', hok, happlied⟩ := exists_applied h memory
  rw [next, hok]
  exact happlied

lemma next_of_error (h : memory.apply operation = .error error) :
    memory.next operation = memory := by
  rw [next, h]

lemma next_of_not_succeeds (h : ¬ operation.Succeeds) (memory : Memory) :
    memory.next operation = memory := by
  obtain ⟨error, herror⟩ := exists_apply_error h memory
  exact next_of_error herror

/-- In place the same is left. -/
lemma left_eq_next (memory : Memory) (operation : Operation) :
    Words.left memory operation = memory.next operation := by
  rw [Words.left, Words.run_apply, next]
  rcases memory.apply operation with error | ⟨answer, memory'⟩ <;> rfl

lemma after_append (before later : List Operation) :
    after (before ++ later) = later.foldl next (after before) := List.foldl_append

lemma after_concat (history : List Operation) (operation : Operation) :
    after (history ++ [operation]) = (after history).next operation :=
  after_append history [operation]

/-- None of the operations puts anything into a cell, unless it fails. -/
def Quiet (a : ℕ) (operations : List Operation) : Prop :=
  ∀ operation ∈ operations, operation.Succeeds → operation.origin? a = none

/-- The byte that was put into a cell last, or 0 if none was. A copy puts there what was put last
into the cell that it copies, before it. -/
inductive LastPut : List Operation → ℕ → UInt8 → Prop
  | never {history : List Operation} {a : ℕ} (quiet : Quiet a history) : LastPut history a 0
  | byte {before later : List Operation} {operation : Operation} {a : ℕ} {value : UInt8}
      (succeeds : operation.Succeeds) (puts : operation.origin? a = some (.byte value))
      (quiet : Quiet a later) : LastPut (before ++ operation :: later) a value
  | cell {before later : List Operation} {operation : Operation} {a address : ℕ} {value : UInt8}
      (succeeds : operation.Succeeds) (puts : operation.origin? a = some (.cell address))
      (held : LastPut before address value) (quiet : Quiet a later) :
      LastPut (before ++ operation :: later) a value

lemma Quiet.concat (h : Quiet a history)
    (hoperation : operation.Succeeds → operation.origin? a = none) :
    Quiet a (history ++ [operation]) := by
  intro other hmem
  rcases List.mem_append.mp hmem with hmem | hmem
  · exact h other hmem
  · rw [List.mem_singleton.mp hmem]
    exact hoperation

/-- What was put last stays last if nothing is put there. -/
lemma LastPut.concat (h : LastPut history a byte)
    (hoperation : operation.Succeeds → operation.origin? a = none) :
    LastPut (history ++ [operation]) a byte := by
  cases h with
  | never quiet => exact .never (quiet.concat hoperation)
  | byte succeeds puts quiet =>
    rw [List.append_assoc]
    exact .byte succeeds puts (quiet.concat hoperation)
  | cell succeeds puts held quiet =>
    rw [List.append_assoc]
    exact .cell succeeds puts held (quiet.concat hoperation)

/-- Some byte was put last into each cell, and the cell holds it. -/
theorem lastPut_after (history : List Operation) (a : ℕ) :
    LastPut history a ((after history).byteAt a) := by
  induction history using List.reverseRecOn generalizing a with
  | nil =>
    have hzero : (after []).byteAt a = 0 := byteAt_initial a
    rw [hzero]
    exact .never nofun
  | append_singleton history operation ih =>
    rw [after_concat]
    by_cases h : operation.Succeeds
    · rw [(applied_next h _).byteAt a]
      cases horigin : operation.origin? a with
      | none => exact (ih a).concat fun _ => horigin
      | some origin => cases origin with
        | byte value => exact .byte h horigin nofun
        | cell address => exact .cell h horigin (ih address) nofun
    · rw [next_of_not_succeeds h]
      exact (ih a).concat fun hsucceeds => absurd hsucceeds h

/-- Operations that put nothing into a cell leave it. -/
lemma Quiet.byteAt (h : Quiet a later) (memory : Memory) :
    (later.foldl next memory).byteAt a = memory.byteAt a := by
  induction later generalizing memory with
  | nil => rfl
  | cons operation later ih =>
    obtain ⟨hoperation, hlater⟩ := List.forall_mem_cons.mp h
    rw [List.foldl_cons, ih hlater]
    by_cases hsucceeds : operation.Succeeds
    · rw [(applied_next hsucceeds memory).byteAt a, hoperation hsucceeds]
      rfl
    · rw [next_of_not_succeeds hsucceeds]

/-- A cell holds the byte that was put there last, and there is one such byte. -/
theorem lastPut_iff : LastPut history a byte ↔ (after history).byteAt a = byte := by
  constructor
  · intro h
    induction h with
    | never quiet => exact (quiet.byteAt initial).trans (byteAt_initial _)
    | byte succeeds puts quiet =>
      rw [after_append, List.foldl_cons, quiet.byteAt, (applied_next succeeds _).byteAt, puts]
      rfl
    | cell succeeds puts _ quiet ih =>
      rw [after_append, List.foldl_cons, quiet.byteAt, (applied_next succeeds _).byteAt, puts]
      exact ih
  · rintro rfl
    exact lastPut_after history a

/-- The operations behind the last reset. -/
def sinceReset (history : List Operation) : List Operation :=
  (history.reverse.takeWhile (· ≠ .reset)).reverse

/-- The cell that was accessed last since the last reset, if there was a successful access. -/
def latestAccess? (history : List Operation) : Option ℕ :=
  (((sinceReset history).filter (·.Succeeds)).filterMap Operation.access?).getLast?

lemma latestAccess?_concat (history : List Operation) (operation : Operation) :
    latestAccess? (history ++ [operation]) =
      if operation = .reset then none
      else if operation.Succeeds then operation.access?.or (latestAccess? history)
      else latestAccess? history := by
  unfold latestAccess? sinceReset
  rw [List.reverse_append, List.reverse_singleton, List.singleton_append, List.takeWhile_cons]
  by_cases hreset : operation = .reset
  · simp [hreset]
  · by_cases hsucceeds : operation.Succeeds
    · cases haccess : operation.access? <;> simp [hreset, hsucceeds, haccess]
    · simp [hreset, hsucceeds]

theorem lastAccess_after (history : List Operation) :
    (after history).lastAccess.map Fin.val = latestAccess? history := by
  induction history using List.reverseRecOn with
  | nil => rfl
  | append_singleton history operation ih =>
    rw [after_concat, latestAccess?_concat]
    by_cases h : operation.Succeeds
    · rw [(applied_next h _).note, ih, if_pos h]
    · have hreset : operation ≠ .reset := by
        rintro rfl
        exact h trivial
      rw [next_of_not_succeeds h, if_neg hreset, if_neg h, ih]

lemma exists_load_ok_iff (memory : Memory) (a : ℕ) (byte : UInt8) :
    (∃ memory', memory.load a = .ok (byte, memory')) ↔ a < 256 ∧ memory.byteAt a = byte := by
  unfold load
  by_cases h : a < 256
  · simp [h, byteAt_of_lt]
  · simp [h]

/-- Memory keeps the last write to every cell. Behind any history of operations on a new memory, a
load succeeds exactly on a cell, and answers with the byte that was put last into that cell, where
operations that fail count for nothing. The note names the cell of the last access that succeeded
since the last reset. In place every operation does the same. It never leaves the range of words,
and where it fails it has changed neither a cell nor the note. -/
theorem cells_hold_last_writes (history : List Operation) :
    let memory := after history
    history.foldl Words.left initial = memory ∧
    (∀ operation, (∃ result, memory.apply operation = .ok result) ↔ operation.Succeeds) ∧
    (∀ operation failure left, (Words.apply operation).run memory = .error failure left →
      left = memory ∧ after (history ++ [operation]) = memory ∧
        ∃ error, failure = .refused error ∧ memory.apply operation = .error error) ∧
    (∀ address : UInt64,
      (∃ byte memory', memory.load address.toNat = .ok (byte, memory')) ↔ address.toNat < 256) ∧
    (∀ (address : UInt64) (byte : UInt8),
      (∃ memory', memory.load address.toNat = .ok (byte, memory')) ↔
        address.toNat < 256 ∧ LastPut history address.toNat byte) ∧
    memory.lastAccess.map Fin.val = latestAccess? history ∧
    (∀ a, latestAccess? history = some a → a < 256) ∧
    ∀ image, (after (history ++ [.loadImage image])).lastAccess = memory.lastAccess := by
  intro memory
  have hnote := lastAccess_after history
  refine ⟨?_, fun operation => exists_apply_ok_iff, fun operation failure left hrun => ?_,
    fun address => ?_, fun address byte => ?_, hnote, fun a ha => ?_, fun image => ?_⟩
  · exact List.foldl_ext _ _ _ fun memory operation _ => left_eq_next memory operation
  · rw [Words.run_apply] at hrun
    cases hresult : memory.apply operation with
    | ok result =>
      rw [hresult] at hrun
      cases hrun
    | error error =>
      rw [hresult] at hrun
      cases hrun
      exact ⟨rfl, (after_concat history operation).trans (next_of_error hresult), error, rfl, rfl⟩
  · simp [exists_load_ok_iff]
  · rw [exists_load_ok_iff, lastPut_iff]
  · rw [← hnote, Option.map_eq_some_iff] at ha
    obtain ⟨cell, -, rfl⟩ := ha
    exact cell.isLt
  · apply Option.map_injective Fin.val_injective
    rw [lastAccess_after, hnote, latestAccess?_concat]
    simp [Operation.access?]

/-- A byte is copied away, then its first cell is stored to, and a copy onto itself fails. The last
cell of the block still holds what the image had put into the first one. -/
example :
    LastPut [.loadImage [7, 8], .copy 10 0 2, .store 0 9, .copy 1 0 2, .copy 20 10 1] 20 7 := by
  rw [lastPut_iff]
  decide +kernel

end Memory

end Octet
