import Mathlib.Algebra.Ring.Int.Defs
import Mathlib.Algebra.Ring.Nat
import Mathlib.Data.List.Basic
import Lineage.IdSource

/-!
# Ids that carry the time

The bits of an id are those of a millisecond, a worker and a sequence number. Whatever a clock
shows, one generator goes on from the last millisecond that it saw, and never comes back to an
earlier one.

* `Snowflake.millisOf`, `workerOf`, `sequenceOf`: the parts of an id; `toInt_eq` puts it together.
* `draw_cases`, `draw_isSome_iff`: what one call leaves, and when there is an id.
* `Follows`: how an id goes on from the one before it.
* `draws`: the ids of a row of calls; `draws_orderly` is what holds of them.
-/

namespace Lineage.Snowflake

/-! ## The parts of an id -/

/-- The millisecond of an id: what stands above bit 21, counted from the epoch. -/
def millisOf (id : Int64) : Int := epoch + id.toInt / 2 ^ 22

/-- Bits 12 to 21 of an id. -/
def workerOf (id : Int64) : BitVec 10 := id.toBitVec.extractLsb' 12 10

/-- Bits 0 to 11 of an id. -/
def sequenceOf (id : Int64) : BitVec 12 := id.toBitVec.extractLsb' 0 12

/-- The low ten bits of a worker number. -/
def lowBits (worker : UInt16) : BitVec 10 := worker.toBitVec.setWidth 10

theorem toNat_workerOf (id : Int64) :
    (workerOf id).toNat = id.toBitVec.toNat / 2 ^ 12 % 2 ^ 10 := by
  rw [workerOf, BitVec.extractLsb'_toNat, Nat.shiftRight_eq_div_pow]

theorem toNat_sequenceOf (id : Int64) : (sequenceOf id).toNat = id.toBitVec.toNat % 2 ^ 12 := by
  rw [sequenceOf, BitVec.extractLsb'_toNat, Nat.shiftRight_zero]

/-- An id is put together from its parts. -/
theorem toInt_eq (id : Int64) : id.toInt =
    (millisOf id - epoch) * 2 ^ 22 + (workerOf id).toNat * 2 ^ 12 + (sequenceOf id).toNat := by
  have hvalue := BitVec.toInt_eq_toNat_cond id.toBitVec
  rw [Int64.toInt_toBitVec] at hvalue
  rw [toNat_workerOf, toNat_sequenceOf, millisOf]
  omega

variable {s s' : Snowflake} {millis : Int} {worker : Fin 1024} {sequence : Fin 4096}
variable {readings rest : List Int} {id : Int64}

theorem toBitVec_shiftLeft (x : Int64) :
    (x <<< 22).toBitVec = x.toBitVec <<< 22 ∧ (x <<< 12).toBitVec = x.toBitVec <<< 12 := by
  constructor <;> exact Int64.toBitVec_shiftLeft ..

/-- The parts do not overlap. Of a millisecond, what goes beyond the highest bit is lost. -/
theorem toNat_compose (millis : Int) (worker : Fin 1024) (sequence : Fin 4096) :
    (compose millis worker sequence).toBitVec.toNat =
      (BitVec.ofInt 64 (millis - epoch)).toNat % 2 ^ 42 * 2 ^ 22 + worker * 2 ^ 12 + sequence := by
  generalize hx : (BitVec.ofInt 64 (millis - epoch)).toNat = x
  have hmillis : x <<< 22 % 2 ^ 64 = (x % 2 ^ 42) <<< 22 := by
    rw [Nat.shiftLeft_eq, Nat.shiftLeft_eq]
    omega
  have hworker : (worker.val % 2 ^ 64) <<< 12 % 2 ^ 64 = worker.val <<< 12 := by
    rw [Nat.shiftLeft_eq, Nat.shiftLeft_eq]
    omega
  have hsequence : sequence.val % 2 ^ 64 = sequence := by omega
  have hlow : worker.val <<< 12 ||| sequence = worker.val <<< 12 + sequence :=
    (Nat.shiftLeft_add_eq_or_of_lt sequence.isLt worker).symm
  have hlt : worker.val <<< 12 + sequence < 2 ^ 22 := by
    rw [Nat.shiftLeft_eq]
    omega
  rw [compose, Int64.toBitVec_or, Int64.toBitVec_or, (toBitVec_shiftLeft _).1,
    (toBitVec_shiftLeft _).2, Int64.toBitVec_ofInt, Int64.toBitVec_ofNat', Int64.toBitVec_ofNat',
    BitVec.toNat_or, BitVec.toNat_or, BitVec.toNat_shiftLeft, BitVec.toNat_shiftLeft,
    BitVec.toNat_ofNat, BitVec.toNat_ofNat, hx, hmillis, hworker, hsequence, Nat.or_assoc, hlow,
    ← Nat.shiftLeft_add_eq_or_of_lt hlt, Nat.shiftLeft_eq, Nat.shiftLeft_eq, Nat.add_assoc]

theorem workerOf_compose (millis : Int) (worker : Fin 1024) (sequence : Fin 4096) :
    workerOf (compose millis worker sequence) = BitVec.ofNat 10 worker := by
  apply BitVec.eq_of_toNat_eq
  rw [toNat_workerOf, toNat_compose, BitVec.toNat_ofNat]
  omega

theorem toNat_sequenceOf_compose (millis : Int) (worker : Fin 1024) (sequence : Fin 4096) :
    (sequenceOf (compose millis worker sequence)).toNat = sequence := by
  rw [toNat_sequenceOf, toNat_compose]
  omega

/-- An instant whose millisecond fits into the bits of an id that are left for it. -/
def InRange (millis : Int) : Prop := epoch ≤ millis ∧ millis < epoch + 2 ^ 41

theorem millisOf_compose (h : InRange millis) (worker : Fin 1024) (sequence : Fin 4096) :
    millisOf (compose millis worker sequence) = millis := by
  obtain ⟨hlo, hhi⟩ := h
  have hvalue := BitVec.toInt_eq_toNat_cond (compose millis worker sequence).toBitVec
  rw [Int64.toInt_toBitVec, toNat_compose, BitVec.toNat_ofInt] at hvalue
  rw [millisOf, hvalue]
  omega

theorem workerOf_ofWorker (worker : UInt16) :
    BitVec.ofNat 10 (ofWorker worker).worker = lowBits worker := by
  apply BitVec.eq_of_toNat_eq
  rw [lowBits, BitVec.toNat_setWidth, BitVec.toNat_ofNat, ofWorker, Fin.val_ofNat]
  exact Nat.mod_mod _ _

/-! ## One call -/

/-- The id that a generator drew last. -/
def current (s : Snowflake) : Int64 := compose s.last s.worker s.sequence

theorem waitPast_isSome {last : Int} :
    (waitPast last readings).isSome = true ↔ ∃ r ∈ readings, last < r := by
  induction readings with
  | nil => simp [waitPast]
  | cons r rest ih =>
    rw [waitPast]
    by_cases hr : last < r <;> simp [hr, ih]

theorem of_waitPast {last later : Int} (h : waitPast last readings = some (later, rest)) :
    last < later ∧ later ∈ readings ∧ rest ⊆ readings := by
  induction readings with
  | nil => cases h
  | cons r more ih =>
    rw [waitPast] at h
    split at h
    case isTrue hr =>
      cases h
      exact ⟨hr, List.mem_cons_self, List.subset_cons_self ..⟩
    case isFalse =>
      obtain ⟨hlater, hmem, hrest⟩ := ih h
      exact ⟨hlater, List.mem_cons_of_mem _ hmem, List.subset_cons_of_subset _ hrest⟩

/-- What a call leaves of a generator: it has gone on to a later reading of the clock, where its
sequence numbers start over, or it has taken the next one of its millisecond. -/
structure Advances (s s' : Snowflake) (readings rest : List Int) : Prop where
  worker : s'.worker = s.worker
  rest : rest ⊆ readings
  moved : s.last < s'.last ∧ s'.last ∈ readings ∧ s'.sequence = 0 ∨
    s'.last = s.last ∧ s'.sequence.val = s.sequence.val + 1

theorem draw_cases (h : s.draw readings = some ((id, s'), rest)) :
    id = s'.current ∧ Advances s s' readings rest := by
  cases readings with
  | nil => cases h
  | cons r more =>
    rw [draw] at h
    split at h
    case isTrue hr =>
      cases h
      exact ⟨rfl, rfl, List.subset_cons_self .., .inl ⟨hr, List.mem_cons_self, rfl⟩⟩
    case isFalse =>
      split at h
      case isTrue =>
        obtain ⟨⟨later, left⟩, hwait, he⟩ := Option.map_eq_some_iff.1 h
        obtain ⟨hlater, hmem, hleft⟩ := of_waitPast hwait
        cases he
        exact ⟨rfl, rfl, List.subset_cons_of_subset _ hleft,
          .inl ⟨hlater, List.mem_cons_of_mem _ hmem, rfl⟩⟩
      case isFalse hleft =>
        cases h
        refine ⟨rfl, rfl, List.subset_cons_self .., .inr ⟨rfl, ?_⟩⟩
        have hne : (s.sequence + 1).val ≠ 0 := fun h => hleft (Fin.ext h)
        simp only [Fin.val_add, Fin.val_one] at hne ⊢
        omega

/-- A call gives an id at once if the clock can be read, unless the numbers of the millisecond are
used up; then it does as soon as the clock shows a later one. -/
theorem draw_isSome_iff : (s.draw readings).isSome = true ↔
    readings ≠ [] ∧ (s.sequence + 1 ≠ 0 ∨ ∃ r ∈ readings, s.last < r) := by
  cases readings with
  | nil => simp [draw]
  | cons r more =>
    rw [draw]
    by_cases hr : s.last < r
    · simp [hr]
    · by_cases hs : s.sequence + 1 = 0
      · simp [hr, hs, waitPast_isSome]
      · simp [hr, hs]

example : draw ⟨5, epoch + 7, 4095⟩ [epoch + 3, epoch + 7, epoch + 9, epoch + 8] =
    some ((37769216, ⟨5, epoch + 9, 0⟩), [epoch + 8]) := by
  decide

/-- How an id goes on from the one before it: in a later millisecond the sequence numbers start
over, within a millisecond they count on. -/
structure Follows (a b : Int64) : Prop where
  worker : workerOf b = workerOf a
  moved : millisOf a < millisOf b ∧ sequenceOf b = 0 ∨
    millisOf b = millisOf a ∧ (sequenceOf b).toNat = (sequenceOf a).toNat + 1

theorem Follows.lt {a b : Int64} (h : Follows a b) : a < b := by
  rw [Int64.lt_iff_toInt_lt, toInt_eq a, toInt_eq b, h.worker]
  have ha := (sequenceOf a).isLt
  rcases h.moved with ⟨hmillis, -⟩ | ⟨hmillis, hsequence⟩ <;> omega

theorem Advances.inRange (h : Advances s s' readings rest) (hs : InRange s.last)
    (hr : ∀ r ∈ readings, InRange r) : InRange s'.last := by
  rcases h.moved with ⟨-, hmem, -⟩ | ⟨hlast, -⟩
  · exact hr _ hmem
  · rwa [hlast]

theorem Advances.follows (h : Advances s s' readings rest) (hs : InRange s.last)
    (hs' : InRange s'.last) : Follows s.current s'.current where
  worker := by rw [current, current, workerOf_compose, workerOf_compose, h.worker]
  moved := by
    rw [current, current, millisOf_compose hs, millisOf_compose hs', toNat_sequenceOf_compose,
      toNat_sequenceOf_compose]
    refine h.moved.imp (fun ⟨hlast, _, hsequence⟩ => ⟨hlast, ?_⟩) id
    apply BitVec.eq_of_toNat_eq
    rw [toNat_sequenceOf_compose, hsequence]
    rfl

/-! ## Many calls -/

/-- The ids of a row of calls, as far as the readings of the clock last. -/
def draws : Nat → Snowflake → List Int → List Int64
  | 0, _, _ => []
  | count + 1, s, readings =>
    match s.draw readings with
    | none => []
    | some ((id, s), rest) => id :: draws count s rest

/-- Every id is one of the generator's worker and of a millisecond that the clock has shown. -/
theorem of_mem_draws {count : Nat} (h : id ∈ s.draws count readings) :
    ∃ t : Snowflake, id = t.current ∧ t.worker = s.worker ∧
      (t.last = s.last ∨ t.last ∈ readings) := by
  induction count generalizing s readings with
  | zero => cases h
  | succ count ih =>
    rw [draws] at h
    split at h
    case h_1 => cases h
    case h_2 hdraw =>
      obtain ⟨rfl, hadvances⟩ := draw_cases hdraw
      have hmoved := hadvances.moved
      rcases List.mem_cons.1 h with rfl | h
      · exact ⟨_, rfl, hadvances.worker, hmoved.symm.imp And.left fun h => h.2.1⟩
      · obtain ⟨t, rfl, hworker, hlast⟩ := ih h
        refine ⟨t, rfl, hworker.trans hadvances.worker, ?_⟩
        rcases hlast with hlast | hmem
        · rw [hlast]
          exact hmoved.symm.imp And.left fun h => h.2.1
        · exact .inr (hadvances.rest hmem)

/-- Once a generator has drawn an id, each id follows the one before it. -/
theorem isChain_draws (hs : InRange s.last) (hr : ∀ r ∈ readings, InRange r) (count : Nat) :
    (s.current :: s.draws count readings).IsChain Follows := by
  induction count generalizing s readings with
  | zero => exact .singleton _
  | succ count ih =>
    rw [draws]
    split
    case h_1 => exact .singleton _
    case h_2 hdraw =>
      obtain ⟨rfl, hadvances⟩ := draw_cases hdraw
      have hs' := hadvances.inRange hs hr
      exact .cons_cons (hadvances.follows hs hs') (ih hs' fun r h => hr r (hadvances.rest h))

theorem workerOf_of_mem_draws {worker : UInt16} {count : Nat}
    (h : id ∈ (ofWorker worker).draws count readings) : workerOf id = lowBits worker := by
  obtain ⟨t, rfl, hworker, -⟩ := of_mem_draws h
  rw [current, workerOf_compose, hworker, workerOf_ofWorker]

/-- The first id has the first millisecond that the clock shows. -/
theorem draws_ofWorker {r : Int} (hr : InRange r) (worker : UInt16) (count : Nat) :
    (ofWorker worker).draws (count + 1) (r :: rest) =
      current { ofWorker worker with last := r } ::
        draws count { ofWorker worker with last := r } rest := by
  have hepoch : 0 < epoch := by decide
  have hlast : (ofWorker worker).last < r := Int.lt_of_lt_of_le hepoch hr.1
  rw [draws, draw, if_pos hlast]
  rfl

/-- What holds of the ids that the generator of a worker draws: they ascend, are positive but in the
first millisecond of the epoch, have the bits of the worker and of a millisecond that the clock has
shown, and are counted from zero in each millisecond. -/
structure Orderly (worker : UInt16) (readings : List Int) (ids : List Int64) : Prop where
  ascending : ids.Pairwise (· < ·)
  positive : ∀ id ∈ ids, 0 ≤ id ∧ (epoch < millisOf id → 0 < id)
  worker : ∀ id ∈ ids, workerOf id = lowBits worker
  millis : ∀ id ∈ ids, millisOf id ∈ readings
  first : ∀ id ∈ ids.head?, sequenceOf id = 0
  counted : ids.IsChain Follows

theorem Orderly.nil (worker : UInt16) : Orderly worker readings [] :=
  ⟨.nil, nofun, nofun, nofun, nofun, .nil⟩

theorem nonneg_of_epoch_le (h : epoch ≤ millisOf id) :
    0 ≤ id ∧ (epoch < millisOf id → 0 < id) := by
  rw [Int64.le_iff_toInt_le, Int64.lt_iff_toInt_lt, Int64.toInt_zero, toInt_eq id]
  omega

theorem orderly_draws (worker : UInt16) (count : Nat) (hr : ∀ r ∈ readings, InRange r) :
    Orderly worker readings ((ofWorker worker).draws count readings) := by
  match count, readings with
  | 0, _ => exact .nil worker
  | count + 1, [] => exact .nil worker
  | count + 1, r :: rest =>
    obtain ⟨hfirst, hrest⟩ := List.forall_mem_cons.1 hr
    have hworker : ∀ id ∈ (ofWorker worker).draws (count + 1) (r :: rest),
        workerOf id = lowBits worker := fun id => workerOf_of_mem_draws
    rw [draws_ofWorker hfirst] at hworker ⊢
    have hchain := isChain_draws (s := { ofWorker worker with last := r }) hfirst hrest count
    have hmillis : ∀ id ∈ current { ofWorker worker with last := r } ::
        draws count { ofWorker worker with last := r } rest, millisOf id ∈ r :: rest := by
      refine List.forall_mem_cons.2 ⟨?_, fun id h => ?_⟩
      · rw [current, millisOf_compose hfirst]
        exact List.mem_cons_self
      · obtain ⟨t, rfl, -, hlast⟩ := of_mem_draws h
        have hmem : t.last ∈ r :: rest := List.mem_cons.2 hlast
        rwa [current, millisOf_compose (hr _ hmem)]
    refine ⟨?_, fun id h => nonneg_of_epoch_le (hr _ (hmillis id h)).1, hworker, hmillis, ?_,
      hchain⟩
    · exact List.isChain_iff_pairwise.1 (hchain.imp fun _ _ => Follows.lt)
    · rintro _ ⟨⟩
      apply BitVec.eq_of_toNat_eq
      exact toNat_sequenceOf_compose ..

/-- As long as the clock stays in the range for which there are bits, ids come in order. Whatever
the clocks show, the generators of workers that differ in their low ten bits share no id. A call
is only left without an id by a clock that is not read, or not read until it moves on once the
sequence numbers are used up. -/
theorem draws_orderly (worker : UInt16) (count : Nat) (readings : List Int) :
    ((∀ r ∈ readings, epoch ≤ r ∧ r < epoch + 2 ^ 41) →
      Orderly worker readings ((ofWorker worker).draws count readings)) ∧
    (∀ (other : UInt16) (count' : Nat) (readings' : List Int),
      lowBits other ≠ lowBits worker → List.Disjoint ((ofWorker worker).draws count readings)
        ((ofWorker other).draws count' readings')) ∧
    ∀ s : Snowflake, (s.draw readings).isSome = true ↔
      readings ≠ [] ∧ (s.sequence + 1 ≠ 0 ∨ ∃ r ∈ readings, s.last < r) := by
  refine ⟨orderly_draws worker count, fun other count' readings' hne id h h' => ?_,
    fun s => draw_isSome_iff⟩
  exact hne ((workerOf_of_mem_draws h').symm.trans (workerOf_of_mem_draws h))

/-- The clock stands still, goes back and moves on. -/
theorem draws_orderly_setback :
    let readings := [epoch + 7, epoch + 7, epoch + 3, epoch + 9]
    (∀ r ∈ readings, epoch ≤ r ∧ r < epoch + 2 ^ 41) ∧ lowBits 6 ≠ lowBits 1029 ∧
      (ofWorker 1029).draws 4 readings = [29380608, 29380609, 29380610, 37769216] ∧
      Orderly 1029 readings [29380608, 29380609, 29380610, 37769216] ∧
      List.Disjoint [29380608, 29380609, 29380610, 37769216]
        ((ofWorker 6).draws 4 readings) := by
  intro readings
  have hr : ∀ r ∈ readings, epoch ≤ r ∧ r < epoch + 2 ^ 41 := by decide
  have hne : lowBits 6 ≠ lowBits 1029 := by decide
  have hids : (ofWorker 1029).draws 4 readings = [29380608, 29380609, 29380610, 37769216] := by
    decide
  obtain ⟨horderly, hdisjoint, -⟩ := draws_orderly 1029 4 readings
  rw [hids] at horderly hdisjoint
  exact ⟨hr, hne, hids, horderly hr, hdisjoint 6 4 readings hne⟩

end Lineage.Snowflake
