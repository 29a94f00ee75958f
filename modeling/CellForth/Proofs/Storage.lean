import CellForth.Proofs.Positions
import Mathlib.Algebra.Ring.Nat

/-!
# Memory after any calls

Memory can be called in any order, with any counts and addresses. A call together with its answer is
an `Exchange`, and `history` makes calls on a new memory and keeps the exchanges. The calls are
those of `Positions`, step by step, which keep what was done before a refusal.

The exchanges alone tell what memory does next. Cells were handed out by the allocations that were
granted (`granted`), in blocks that follow each other (`blocks`), and a cell holds what was stored
in it last (`lastStored`). `answer` computes from that how a call has to be answered. Main
statement: whatever was called, every call is answered like this, and one that is refused changes
nothing (`last_store_wins`).
-/

namespace CellForth.Memory

/-- A call on memory. -/
inductive Request where
  | allocate (count : Nat)
  | fetch (a : Nat)
  | store (a : Nat) (v : Value)

/-- A call on memory and how it was answered. -/
inductive Exchange where
  | allocate (count : Nat) (answer : Except Fault Nat)
  | fetch (a : Nat) (answer : Except Fault Value)
  | store (a : Nat) (v : Value) (answer : Except Fault Unit)

/-- Makes a call, step by step. -/
def exchange (m : Memory) : Request → Option (Exchange × Memory)
  | .allocate count => (allocateAt count m).map (Prod.map (.allocate count) id)
  | .fetch a => (fetchAt a m).map (Prod.map (.fetch a) id)
  | .store a v => (storeAt a v m).map (Prod.map (.store a v) id)

/-- Makes calls on a new memory. Both the calls and the exchanges are given newest first. -/
def history : List Request → Option (List Exchange × Memory)
  | [] => some ([], empty)
  | r :: earlier => do
    let (log, m) ← history earlier
    let (e, m') ← m.exchange r
    some (e :: log, m')

/-! ## What exchanges tell -/

namespace Exchange

/-- Whether a call was refused. -/
def isRefused : Exchange → Bool
  | .allocate _ (.error _) => true
  | .fetch _ (.error _) => true
  | .store _ _ (.error _) => true
  | _ => false

/-- The block that was handed out: its first address and the count of its cells. -/
def block? : Exchange → Option (Nat × Nat)
  | .allocate count (.ok first) => some (first, count)
  | _ => none

/-- The value that was stored at an address. -/
def stored? (a : Nat) : Exchange → Option Value
  | .store b v (.ok _) => if b = a then some v else none
  | _ => none

end Exchange

variable {log : List Exchange} {m : Memory}

/-- The blocks that were handed out, oldest first. -/
def blocks (log : List Exchange) : List (Nat × Nat) :=
  (log.filterMap Exchange.block?).reverse

/-- How many cells were handed out. -/
def granted (log : List Exchange) : Nat :=
  ((blocks log).map (·.2)).sum

/-- The value that was stored last at an address. -/
def lastStored (log : List Exchange) (a : Nat) : Option Value :=
  log.findSome? (Exchange.stored? a)

/-- How a call is answered after some exchanges. -/
def answer (log : List Exchange) : Request → Exchange
  | .allocate count => .allocate count <|
    if limit < granted log + count then .error ⟨.outOfRange, "allocate: " ++ toString count⟩
    else .ok (granted log)
  | .fetch a => .fetch a <|
    if a < granted log then .ok ((lastStored log a).getD (.int 0))
    else .error ⟨.invalidAddress, "@: " ++ toString a⟩
  | .store a v => .store a v <|
    if a < granted log then .ok ()
    else .error ⟨.invalidAddress, "!: " ++ toString a⟩

theorem blocks_cons (e : Exchange) (log : List Exchange) :
    blocks (e :: log) = blocks log ++ e.block?.toList := by
  cases h : e.block? <;> simp [blocks, h]

theorem granted_cons (e : Exchange) (log : List Exchange) :
    granted (e :: log) = granted log + (e.block?.map (·.2)).getD 0 := by
  cases h : e.block? <;> simp [granted, blocks_cons, h]

/-- The newest exchange is asked first for what was stored. -/
theorem lastStored_cons (e : Exchange) (log : List Exchange) (a : Nat) :
    lastStored (e :: log) a = (e.stored? a).or (lastStored log a) := by
  cases h : e.stored? a <;> simp [lastStored, h]

/-- An exchange that handed out nothing and stored nothing tells nothing new. -/
theorem told_cons_of_none {e : Exchange} (hblock : e.block? = none)
    (hstored : ∀ a, e.stored? a = none) : blocks (e :: log) = blocks log ∧
      granted (e :: log) = granted log ∧ lastStored (e :: log) = lastStored log := by
  refine ⟨?_, ?_, funext fun a => ?_⟩
  · simp [blocks_cons, hblock]
  · simp [granted_cons, hblock]
  · simp [lastStored_cons, hstored]

/-! ## Blocks -/

/-- Blocks that follow each other from the first address on, and cover all addresses up to an
end. -/
structure Covers (last : Nat) (blocks : List (Nat × Nat)) : Prop where
  addresses : blocks.flatMap (fun b => List.range' b.1 b.2) = List.range last
  ascending : blocks.Pairwise fun b b' => b.1 + b.2 ≤ b'.1
  le_last : ∀ b ∈ blocks, b.1 + b.2 ≤ last

theorem Covers.nil : Covers 0 [] :=
  ⟨rfl, .nil, nofun⟩

/-- The next block begins where the last one ended. -/
theorem Covers.concat {last : Nat} {blocks : List (Nat × Nat)} (h : Covers last blocks)
    (count : Nat) : Covers (last + count) (blocks ++ [(last, count)]) where
  addresses := by
    have hrange := List.range'_append_1 (s := 0) (m := last) (n := count)
    rw [Nat.zero_add] at hrange
    simp [h.addresses, List.range_eq_range', hrange]
  ascending := by
    refine List.pairwise_append.2 ⟨h.ascending, List.pairwise_singleton _ _, ?_⟩
    intro b hb b' hb'
    rw [List.mem_singleton.1 hb']
    exact h.le_last b hb
  le_last := by
    intro b hb
    rcases List.mem_append.1 hb with hb | hb
    · exact Nat.le_add_right_of_le (h.le_last b hb)
    · obtain rfl := List.mem_singleton.1 hb
      exact Nat.le_refl _

/-! ## Each call keeps to what the exchanges tell -/

/-- The exchanges tell the blocks of memory and the content of its cells. Nothing was stored at
addresses that were not handed out. -/
structure Told (log : List Exchange) (m : Memory) : Prop where
  size : m.cells.size = granted log
  le_limit : granted log ≤ limit
  covers : Covers (granted log) (blocks log)
  cells : ∀ a < granted log, m.cells[a]? = some ((lastStored log a).getD (.int 0))
  unstored : ∀ a, granted log ≤ a → lastStored log a = none

namespace Told

theorem new : Told [] empty where
  size := rfl
  le_limit := Nat.zero_le _
  covers := .nil
  cells := nofun
  unstored _ _ := rfl

/-- An exchange that handed out and stored nothing leaves all as told. -/
theorem of_none (h : Told log m) {e : Exchange} (hblock : e.block? = none)
    (hstored : ∀ a, e.stored? a = none) : Told (e :: log) m := by
  obtain ⟨hblocks, hgranted, hlast⟩ : blocks (e :: log) = blocks log ∧
      granted (e :: log) = granted log ∧ lastStored (e :: log) = lastStored log :=
    told_cons_of_none hblock hstored
  constructor
  · rw [hgranted, h.size]
  · rw [hgranted]
    exact h.le_limit
  · rw [hgranted, hblocks]
    exact h.covers
  · rw [hgranted, hlast]
    exact h.cells
  · rw [hgranted, hlast]
    exact h.unstored

/-- A block is refused if it does not fit behind those that were handed out. -/
theorem allocate_refused (h : Told log m) {count : Nat} (hcount : limit < granted log + count) :
    allocate count m = .error ⟨.outOfRange, "allocate: " ++ toString count⟩ := by
  have hroom : limit - m.size < count := by
    have := h.le_limit
    have : m.size = granted log := h.size
    omega
  rw [allocate, if_pos hroom]

/-- A block begins where the last one ended, with zeros in it. -/
theorem allocate_granted (h : Told log m) {count : Nat} (hcount : granted log + count ≤ limit) :
    allocate count m = .ok (granted log, ⟨m.cells ++ Array.replicate count (.int 0)⟩) := by
  have hsize : m.size = granted log := h.size
  have hroom : ¬ limit - m.size < count := by omega
  rw [allocate, if_neg hroom, hsize]

/-- New cells hold zero, and nothing was stored in them before. -/
theorem grant (h : Told log m) {count : Nat} (hcount : granted log + count ≤ limit) :
    Told (.allocate count (.ok (granted log)) :: log)
      ⟨m.cells ++ Array.replicate count (.int 0)⟩ := by
  let e : Exchange := .allocate count (.ok (granted log))
  have hgranted : granted (e :: log) = granted log + count := granted_cons e log
  have hblocks : blocks (e :: log) = blocks log ++ [(granted log, count)] := blocks_cons e log
  have hlast : ∀ a, lastStored (e :: log) a = lastStored log a := lastStored_cons e log
  constructor
  · rw [hgranted, ← h.size, Array.size_append, Array.size_replicate]
  · rw [hgranted]
    exact hcount
  · rw [hgranted, hblocks]
    exact h.covers.concat count
  · intro a ha
    rw [hgranted] at ha
    rw [hlast]
    rcases Nat.lt_or_ge a (granted log) with hold | hnew
    · rw [Array.getElem?_append_left (h.size ▸ hold), h.cells a hold]
    · rw [Array.getElem?_append_right (h.size ▸ hnew), h.unstored a hnew, Option.getD_none,
        Array.getElem?_replicate, h.size, if_pos (Nat.sub_lt_left_of_lt_add hnew ha)]
  · intro a ha
    rw [hgranted] at ha
    rw [hlast]
    exact h.unstored a (Nat.le_of_add_right_le ha)

/-- A cell that was handed out answers with what was stored there last, or zero. -/
theorem fetch_of_lt (h : Told log m) {a : Nat} (ha : a < granted log) :
    fetch a m = .ok ((lastStored log a).getD (.int 0), m) := by
  rw [fetch, h.cells a ha]

/-- A cell that was not handed out cannot be read. -/
theorem fetch_of_le (h : Told log m) {a : Nat} (ha : granted log ≤ a) :
    fetch a m = .error ⟨.invalidAddress, "@: " ++ toString a⟩ := by
  have hnone : m.cells[a]? = none := Array.getElem?_eq_none (h.size ▸ ha)
  rw [fetch, hnone]

theorem store_of_le (h : Told log m) {a : Nat} (ha : granted log ≤ a) (v : Value) :
    store a v m = .error ⟨.invalidAddress, "!: " ++ toString a⟩ := by
  have hbound : ¬ a < m.cells.size := Nat.not_lt_of_le (h.size ▸ ha)
  rw [store, dif_neg hbound]

/-- The cell at the address holds the value from then on, and all others what they held. -/
theorem store_of_lt (h : Told log m) {a : Nat} (ha : a < granted log) (v : Value) :
    ∃ m', store a v m = .ok ((), m') ∧ Told (.store a v (.ok ()) :: log) m' := by
  let e : Exchange := .store a v (.ok ())
  have hbound : a < m.cells.size := h.size ▸ ha
  have hgranted : granted (e :: log) = granted log := granted_cons e log
  have hblocks : blocks (e :: log) = blocks log := by simp [blocks_cons, e, Exchange.block?]
  have hlast : ∀ b, lastStored (e :: log) b = if a = b then some v else lastStored log b := by
    intro b
    rw [lastStored_cons]
    by_cases hb : a = b <;> simp [e, Exchange.stored?, hb]
  refine ⟨⟨m.cells.set a v hbound⟩, by rw [store, dif_pos hbound], ?_⟩
  constructor
  · rw [hgranted, ← h.size, Array.size_set]
  · rw [hgranted]
    exact h.le_limit
  · rw [hgranted, hblocks]
    exact h.covers
  · intro b hb
    rw [hgranted] at hb
    rw [hlast, Array.getElem?_set]
    split
    · rfl
    · exact h.cells b hb
  · intro b hb
    rw [hgranted] at hb
    rw [hlast, if_neg (by omega)]
    exact h.unstored b hb

/-- A call is answered as the exchanges before it say, and then the exchanges with it tell what
memory holds. No step of a call that is refused has changed anything. -/
theorem exchange (h : Told log m) (r : Request) :
    ∃ m', m.exchange r = some (answer log r, m') ∧ Told (answer log r :: log) m' ∧
      ((answer log r).isRefused = true → m' = m) := by
  have hchecked : m.Checked := checked (Nat.le_trans (Nat.le_of_eq h.size) h.le_limit)
  cases r with
  | allocate count =>
    rw [Memory.exchange, hchecked.allocate, answer]
    rcases Nat.lt_or_ge limit (granted log + count) with hcount | hcount
    · rw [Transaction.settle_of_error (h.allocate_refused hcount), if_pos hcount]
      exact ⟨m, rfl, h.of_none rfl fun _ => rfl, fun _ => rfl⟩
    · rw [Transaction.settle_of_ok (h.allocate_granted hcount), if_neg (Nat.not_lt.2 hcount)]
      exact ⟨_, rfl, h.grant hcount, by rintro ⟨⟩⟩
  | fetch a =>
    rw [Memory.exchange, hchecked.fetch, answer]
    rcases Nat.lt_or_ge a (granted log) with ha | ha
    · rw [Transaction.settle_of_ok (h.fetch_of_lt ha), if_pos ha]
      exact ⟨m, rfl, h.of_none rfl fun _ => rfl, fun _ => rfl⟩
    · rw [Transaction.settle_of_error (h.fetch_of_le ha), if_neg (Nat.not_lt.2 ha)]
      exact ⟨m, rfl, h.of_none rfl fun _ => rfl, fun _ => rfl⟩
  | store a v =>
    rw [Memory.exchange, hchecked.store, answer]
    rcases Nat.lt_or_ge a (granted log) with ha | ha
    · obtain ⟨m', hstore, htold⟩ := h.store_of_lt ha v
      rw [Transaction.settle_of_ok hstore, if_pos ha]
      exact ⟨m', rfl, htold, by rintro ⟨⟩⟩
    · rw [Transaction.settle_of_error (h.store_of_le ha v), if_neg (Nat.not_lt.2 ha)]
      exact ⟨m, rfl, h.of_none rfl fun _ => rfl, fun _ => rfl⟩

end Told

/-- Whatever was called on a new memory, the exchanges tell what it holds. -/
theorem exists_history (requests : List Request) :
    ∃ log m, history requests = some (log, m) ∧ Told log m := by
  induction requests with
  | nil => exact ⟨[], empty, rfl, .new⟩
  | cons r earlier ih =>
    obtain ⟨log, m, hearlier, htold⟩ := ih
    obtain ⟨m', hexchange, htold', -⟩ := htold.exchange r
    refine ⟨answer log r :: log, m', ?_, htold'⟩
    simp only [history, hearlier, Option.bind_eq_bind, Option.bind_some, hexchange]

/-- Memory after any calls: the next call is answered as the exchanges so far say, and no step of it
has changed anything if it is refused. The blocks that were handed out follow each other and cover
all cells. -/
theorem last_store_wins (requests : List Request) :
    ∃ log m, history requests = some (log, m) ∧
    (∀ r, ∃ m', m.exchange r = some (answer log r, m') ∧
      ((answer log r).isRefused = true → m' = m)) ∧
    m.size = granted log ∧ granted log ≤ limit ∧ Covers (granted log) (blocks log) := by
  obtain ⟨log, m, hhistory, htold⟩ := exists_history requests
  refine ⟨log, m, hhistory, fun r => ?_, htold.size, htold.le_limit, htold.covers⟩
  obtain ⟨m', hexchange, -, hrefused⟩ := htold.exchange r
  exact ⟨m', hexchange, hrefused⟩

end CellForth.Memory
