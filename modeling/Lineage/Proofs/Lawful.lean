import Lineage.Proofs.Spelling
import Lineage.Proofs.Stamp
import Lineage.Proofs.Table
import Lineage.Proofs.Uuid
import Lineage.Wire.Job
import Lineage.Wire.Page

/-!
# Values are decoded from what they are encoded as

`Wire.Lawful α` is the law of a type that is written as JSON: a reader of text takes the JSON of a
legible value as it stands (`Json.isTaken`), and decoding it gives the value. Of most types every
value is legible. Free JSON has to be canonical and without fractions, and none of its objects may
begin with the embedding key (`Json.Legible`); an instant has to be one that a stamp gives in full
(`Instant.IsCivil`). A record is legible if its fields are.

* `Record.bind_open?`: an encoded record is read as its members.
* `Json.isTaken_free`: what a reader of free JSON takes.
* The instances of `Wire.Lawful`, one for each type.
* `Wire.read?_write`: a legible value that is not nested too deep is read back from its text.
-/

namespace Lineage

/-! ## Records -/

namespace Json

variable {shape : Shape} {members : List (String × Json)}

theorem isTaken_object (hopens : opensEmbedding shape members = false)
    (h : membersTaken shape members = true) : isTaken shape (.object members) = true := by
  rw [isTaken, hopens, h]
  rfl

theorem membersTaken_cons {key : String} {s : Shape} {j : Json}
    (hs : shape.member? key = some s) (hj : isTaken s j = true)
    (h : membersTaken shape members = true) : membersTaken shape ((key, j) :: members) = true := by
  rw [membersTaken, hs, h, Bool.and_true]
  exact hj

end Json

namespace Record

theorem eraseDups_of_nodup {names : List String} (h : names.Nodup) : names.eraseDups = names := by
  induction names with
  | nil => rfl
  | cons name names ih =>
    obtain ⟨hname, hnames⟩ := List.nodup_cons.1 h
    have hkept : names.filter (fun n => !n == name) = names :=
      List.filter_eq_self.2 fun n hn => by
        have hne : n ≠ name := fun heq => hname (heq ▸ hn)
        simpa using hne
    rw [List.eraseDups_cons, hkept, ih hnames]

/-- An object whose keys are the names of the fields is opened as it stands. -/
theorem open?_object {shape : Json.Shape} {members : List (String × Json)}
    (hnames : members.map (·.1) = shape.names) (hnodup : shape.names.Nodup) :
    open? shape (.object members) = some ⟨members, false⟩ := by
  have hnamed : (members.filter fun m => shape.names.contains m.1) = members := by
    refine List.filter_eq_self.2 fun m hm => ?_
    rw [← hnames, List.contains_iff_mem]
    exact List.mem_map_of_mem hm
  simp only [open?, hnamed, hnames, eraseDups_of_nodup hnodup]
  exact if_pos (by rw [← hnames, List.length_map])

theorem bind_open? {β : Type} {f : Record → Option β} {b : β} {shape : Json.Shape}
    {members : List (String × Json)} (hnames : members.map (·.1) = shape.names)
    (hnodup : shape.names.Nodup) (h : f ⟨members, false⟩ = some b) :
    open? shape (.object members) >>= f = some b := by
  rw [open?_object hnames hnodup]
  exact h

variable {key name : String} {j : Json} {fields : List (String × Json)} {positional : Bool}

@[simp] theorem find?_self : find? ⟨(key, j) :: fields, positional⟩ key = some j := by
  simp [find?]

@[simp] theorem find?_cons (h : ¬key = name) :
    find? ⟨(key, j) :: fields, positional⟩ name = find? ⟨fields, positional⟩ name := by
  simp [find?, h]

end Record

/-! ## Durations -/

namespace Duration

theorem seconds_lt (d : Duration) : d.seconds < UInt64.size :=
  Nat.div_lt_of_lt_mul (Nat.mul_comm _ _ ▸ d.bounded)

theorem subsecond_lt (d : Duration) : d.subsecond < UInt32.size :=
  Nat.lt_trans (Nat.mod_lt _ (by decide)) (by decide : nanosPerSecond < UInt32.size)

/-- The seconds of a span and the nanoseconds beyond them make up the span. -/
theorem ofNanos?_parts (d : Duration) :
    ofNanos? (d.seconds * nanosPerSecond + d.subsecond) = some d := by
  have hparts : d.seconds * nanosPerSecond + d.subsecond = d.nanos := Nat.div_add_mod' _ _
  simp only [hparts, ofNanos?, d.bounded, dif_pos]

end Duration

/-! ## Free JSON -/

namespace Json

mutual

/-- Whether every number within a value is an integer of 64 bits. -/
def isIntegral : Json → Bool
  | .number (.integer n) => fitsInteger n
  | .number (.binary _) => false
  | .array items => itemsIntegral items
  | .object members => membersIntegral members
  | _ => true
termination_by structural j => j

/-- `isIntegral` of every item. -/
def itemsIntegral : List Json → Bool
  | [] => true
  | j :: rest => j.isIntegral && itemsIntegral rest
termination_by structural items => items

/-- `isIntegral` of every member. -/
def membersIntegral : List (String × Json) → Bool
  | [] => true
  | (_, j) :: rest => j.isIntegral && membersIntegral rest
termination_by structural members => members

end

mutual

/-- A reader of free JSON takes what is settled and has no fractions. -/
theorem isTaken_free : ∀ {j : Json}, j.isIntegral = true → isSettled .free j = true →
    isTaken .free j = true
  | .null, _, _ => rfl
  | .bool _, _, _ => rfl
  | .string _, _, _ => rfl
  | .number (.integer _), hintegral, _ => hintegral
  | .array _, hintegral, hsettled => itemsTaken_free 0 hintegral hsettled
  | .object _, hintegral, hsettled => by
    rw [isSettled, Bool.and_eq_true] at hsettled
    rw [isTaken, Bool.and_eq_true]
    exact ⟨hsettled.1, membersTaken_free hintegral hsettled.2⟩

theorem itemsTaken_free : ∀ {items : List Json} (index : Nat), itemsIntegral items = true →
    itemsSettled .free index items = true → itemsTaken .free index items = true
  | [], _, _, _ => rfl
  | j :: items, index, hintegral, hsettled => by
    rw [itemsIntegral, Bool.and_eq_true] at hintegral
    rw [itemsSettled, Bool.and_eq_true] at hsettled
    rw [itemsTaken, Bool.and_eq_true]
    exact ⟨isTaken_free hintegral.1 hsettled.1,
      itemsTaken_free (index + 1) hintegral.2 hsettled.2⟩

theorem membersTaken_free : ∀ {members : List (String × Json)}, membersIntegral members = true →
    membersSettled .free members = true → membersTaken .free members = true
  | [], _, _ => rfl
  | (_, j) :: members, hintegral, hsettled => by
    rw [membersIntegral, Bool.and_eq_true] at hintegral
    rw [membersSettled, Bool.and_eq_true] at hsettled
    rw [membersTaken, Bool.and_eq_true]
    exact ⟨isTaken_free hintegral.1 hsettled.1, membersTaken_free hintegral.2 hsettled.2⟩

end

/-- Free JSON whose text spells it. -/
structure Legible (j : Json) : Prop where
  /-- The members of every object ascend. -/
  canonical : j.canonical = j
  /-- There are no fractions. -/
  integral : j.isIntegral = true
  /-- No object begins with the embedding key. -/
  settled : isSettled .free j = true

theorem Legible.taken {j : Json} (h : j.Legible) : isTaken .free j = true :=
  isTaken_free h.integral h.settled

end Json

/-! ## Lawful types -/

/-- What a job holds besides free JSON and instants is always legible. -/
structure Job.Legible (j : Job) : Prop where
  payload : j.payload.Legible
  created : j.created.IsCivil
  updated : j.updated.IsCivil
  scheduled : ∀ t ∈ j.scheduled, t.IsCivil

/-- A type whose legible values are taken by a reader of its shape and decoded again. -/
class Wire.Lawful (α : Type) [Wire α] where
  Legible : α → Prop
  taken {a : α} : Legible a → Json.isTaken (Wire.shape α) (Wire.encode a) = true
  decode_encode {a : α} : Legible a → Wire.decode? (Wire.encode a) = some a

namespace Wire

open Json (isTaken_object membersTaken_cons)

attribute [simp] Lawful.decode_encode

/-! ## Words -/

instance : Lawful Bool := ⟨fun _ => True, fun _ => rfl, fun _ => rfl⟩

instance : Lawful String := ⟨fun _ => True, fun _ => rfl, fun _ => rfl⟩

@[simp] theorem decode?_bool (b : Bool) : decode? (.bool b) = some b := rfl

@[simp] theorem decode?_string (s : String) : decode? (.string s) = some s := rfl

theorem integer?_int {low high n : Int} (hlow : low ≤ n) (hhigh : n < high) :
    integer? low high (.int n) = some n := if_pos ⟨hlow, hhigh⟩

theorem fitsInteger_nat {n : Nat} (h : n < UInt64.size) : Json.fitsInteger n = true := by
  have hlow : Int64.minValue.toInt ≤ 0 := by decide
  rw [Json.fitsInteger, decide_eq_true_eq]
  omega

theorem decode?_nat32 {n : Nat} (h : n < UInt32.size) :
    decode? (.nat n) = some (UInt32.ofNat n) :=
  congrArg (Option.map _) (integer?_int (Int.natCast_nonneg n) (Int.ofNat_lt.2 h))

theorem decode?_nat64 {n : Nat} (h : n < UInt64.size) :
    decode? (.nat n) = some (UInt64.ofNat n) :=
  congrArg (Option.map _) (integer?_int (Int.natCast_nonneg n) (Int.ofNat_lt.2 h))

instance : Lawful UInt32 where
  Legible _ := True
  taken {n} _ := fitsInteger_nat (Nat.lt_trans n.toNat_lt_size (by decide))
  decode_encode {n} _ := (decode?_nat32 n.toNat_lt_size).trans (by rw [UInt32.ofNat_toNat])

instance : Lawful UInt64 where
  Legible _ := True
  taken {n} _ := fitsInteger_nat n.toNat_lt_size
  decode_encode {n} _ := (decode?_nat64 n.toNat_lt_size).trans (by rw [UInt64.ofNat_toNat])

instance : Lawful Int64 where
  Legible _ := True
  taken {n} _ := by
    have hlow : Int64.minValue.toInt ≤ n.toInt := n.le_toInt
    have hhigh : n.toInt < UInt64.size := Int.lt_trans n.toInt_lt (by decide)
    exact decide_eq_true ⟨hlow, hhigh⟩
  decode_encode {n} _ := by
    have hread : integer? Int64.minValue.toInt (Int64.maxValue.toInt + 1) (.int n.toInt) =
        some n.toInt := integer?_int n.le_toInt n.toInt_lt
    exact (congrArg (Option.map _) hread).trans (by rw [Option.map_some, Int64.ofInt_toInt])

/-! ## Extensions -/

instance : Lawful Json where
  Legible := Json.Legible
  taken h := h.taken
  decode_encode h := congrArg some h.canonical

theorem canonicalMembers_eq {members : List (String × Json)}
    (h : ∀ m ∈ members, m.2.Legible) : Json.canonicalMembers members = members := by
  induction members with
  | nil => rfl
  | cons m members ih =>
    obtain ⟨hm, hmembers⟩ := List.forall_mem_cons.1 h
    rw [Json.canonicalMembers, hm.canonical, ih hmembers]

theorem membersTaken_plain {members : List (String × Json)}
    (h : ∀ m ∈ members, m.2.Legible) : Json.membersTaken .plain members = true := by
  induction members with
  | nil => rfl
  | cons m members ih =>
    obtain ⟨hm, hmembers⟩ := List.forall_mem_cons.1 h
    exact Bool.and_eq_true_iff.2 ⟨hm.taken, ih hmembers⟩

instance : Lawful (Table String Json) where
  Legible t := ∀ e ∈ t.entries, e.2.Legible
  taken h := membersTaken_plain h
  decode_encode {t} h := by
    change some (Table.ofList (Json.canonicalMembers t.entries)) = some t
    rw [canonicalMembers_eq h, Table.ofList_entries]

/-! ## Options and lists -/

section

variable {α : Type} [Wire α] [Lawful α]

/-- A value that is there must not be written as the absence of one. -/
instance : Lawful (Option α) where
  Legible o := ∀ a ∈ o, Lawful.Legible a ∧ encode a ≠ .null
  taken {o} h := by
    cases o with
    | none => rfl
    | some a =>
      have ha := Lawful.taken (h a rfl).1
      exact ha
  decode_encode {o} h := by
    cases o with
    | none => rfl
    | some a =>
      obtain ⟨ha, hnull⟩ := h a rfl
      have hread : (decode? (encode a)).map some = some (some a) := by
        rw [Lawful.decode_encode ha, Option.map_some]
      revert hread hnull
      change _ → _ → decode? (encode a) = _
      cases encode a with
      | null => exact fun hnull => absurd rfl hnull
      | _ => exact fun _ hread => hread

theorem itemsTaken_map {items : List α} (h : ∀ a ∈ items, Lawful.Legible a) (index : Nat) :
    Json.itemsTaken (.list (shape α)) index (items.map encode) = true := by
  induction items generalizing index with
  | nil => rfl
  | cons a items ih =>
    obtain ⟨ha, hitems⟩ := List.forall_mem_cons.1 h
    exact Bool.and_eq_true_iff.2 ⟨Lawful.taken ha, ih hitems (index + 1)⟩

theorem mapM_decode? {items : List α} (h : ∀ a ∈ items, Lawful.Legible a) :
    (items.map encode).mapM (decode? : Json → Option α) = some items := by
  induction items with
  | nil => rfl
  | cons a items ih =>
    obtain ⟨ha, hitems⟩ := List.forall_mem_cons.1 h
    rw [List.map_cons, List.mapM_cons, Lawful.decode_encode ha, ih hitems]
    rfl

instance : Lawful (List α) where
  Legible items := ∀ a ∈ items, Lawful.Legible a
  taken h := itemsTaken_map h 0
  decode_encode h := mapM_decode? h

end

/-! ## Nodes and rows

A record is opened as its members and every field is found under its name. The steps are rewritten
with explicit proofs: implicit ones would have the kernel run the decoders of the fields. -/

section

variable {k : Kind}

instance : Lawful (NodeId k) where
  Legible _ := True
  taken {id} _ := Lawful.taken (a := id.raw) trivial
  decode_encode {id} _ := by
    change (decode? (encode id.raw)).map NodeId.mk = some id
    rw [Lawful.decode_encode (a := id.raw) trivial, Option.map_some]

instance : Lawful (Path k) where
  Legible _ := True
  taken {p} _ := isTaken_object rfl <|
    membersTaken_cons rfl (Lawful.taken (a := p.ancestor) trivial) <|
    membersTaken_cons rfl (Lawful.taken (a := p.descendant) trivial) <|
    membersTaken_cons rfl (Lawful.taken (a := p.depth) trivial) rfl
  decode_encode {p} _ := by
    refine Record.bind_open? rfl (by decide) ?_
    simp -implicitDefEqProofs [Record.required?, Lawful.Legible]

instance : Lawful (Node k) where
  Legible n := Lawful.Legible n.extensions
  taken {n} h := isTaken_object rfl <|
    membersTaken_cons rfl (Lawful.taken (a := n.id) trivial) <|
    membersTaken_cons rfl (Lawful.taken (a := n.code) trivial) <|
    membersTaken_cons rfl (Lawful.taken (a := n.name) trivial) <|
    membersTaken_cons rfl (Lawful.taken (a := n.description) trivial) <|
    membersTaken_cons rfl (Lawful.taken h) rfl
  decode_encode {n} h := by
    refine Record.bind_open? rfl (by decide) ?_
    simp -implicitDefEqProofs [Record.required?, Record.defaulted?, Lawful.decode_encode h,
      Lawful.Legible]

theorem legible_id? (id : Option (NodeId k)) : Lawful.Legible id := by
  rintro id -
  exact ⟨trivial, nofun⟩

instance : Lawful (NewNode k) where
  Legible n := Lawful.Legible n.extensions
  taken {n} h := isTaken_object rfl <|
    membersTaken_cons rfl (Lawful.taken (legible_id? n.id)) <|
    membersTaken_cons rfl (Lawful.taken (a := n.code) trivial) <|
    membersTaken_cons rfl (Lawful.taken (a := n.name) trivial) <|
    membersTaken_cons rfl (Lawful.taken (a := n.description) trivial) <|
    membersTaken_cons rfl (Lawful.taken h) rfl
  decode_encode {n} h := by
    refine Record.bind_open? rfl (by decide) ?_
    simp -implicitDefEqProofs [Record.required?, Record.defaulted?, Lawful.decode_encode h,
      Lawful.decode_encode (legible_id? n.id)]

instance : Lawful (NodeView k) where
  Legible v := Lawful.Legible v.node
  taken {v} h := isTaken_object rfl <|
    membersTaken_cons rfl (Lawful.taken h) <|
    membersTaken_cons rfl (Lawful.taken (a := v.hasDescendant) trivial) rfl
  decode_encode {v} h := by
    refine Record.bind_open? rfl (by decide) ?_
    simp -implicitDefEqProofs [Record.required?, Lawful.decode_encode h]

end

theorem legible_text? (s : Option String) : Lawful.Legible s := by
  rintro s -
  exact ⟨trivial, nofun⟩

instance : Lawful NodeFilter where
  Legible _ := True
  taken {f} _ := isTaken_object rfl <|
    membersTaken_cons rfl (Lawful.taken (legible_text? f.code)) <|
    membersTaken_cons rfl (Lawful.taken (legible_text? f.name)) rfl
  decode_encode {f} _ := by
    refine Record.bind_open? rfl (by decide) ?_
    simp -implicitDefEqProofs [Record.optional?, Lawful.decode_encode (legible_text? _)]

/-! ## Windows of listings -/

instance : Lawful Pagination where
  Legible _ := True
  taken {p} _ := isTaken_object rfl <|
    membersTaken_cons rfl (Lawful.taken (a := p.limit) trivial) <|
    membersTaken_cons rfl (Lawful.taken (a := p.offset) trivial) rfl
  decode_encode {p} _ := by
    refine Record.bind_open? rfl (by decide) ?_
    simp -implicitDefEqProofs [Record.required?, Lawful.Legible]

section

variable {α : Type} [Wire α] [Lawful α]

instance : Lawful (Page α) where
  Legible p := Lawful.Legible p.items
  taken {p} h := isTaken_object rfl <|
    membersTaken_cons rfl (Lawful.taken h) <|
    membersTaken_cons rfl (Lawful.taken (a := p.total) trivial) <|
    membersTaken_cons rfl (Lawful.taken (a := p.pagination) trivial) <|
    membersTaken_cons rfl (Lawful.taken (a := p.hasMore) trivial) rfl
  decode_encode {p} h := by
    refine Record.bind_open? rfl (by simp [Page.shape, Json.Shape.names]) ?_
    simp -implicitDefEqProofs [Record.required?, Lawful.decode_encode h, Lawful.Legible]

instance : Lawful (Slice α) where
  Legible s := Lawful.Legible s.items
  taken {s} h := isTaken_object rfl <|
    membersTaken_cons rfl (Lawful.taken h) <|
    membersTaken_cons rfl (Lawful.taken (a := s.pagination) trivial) <|
    membersTaken_cons rfl (Lawful.taken (a := s.hasNext) trivial) rfl
  decode_encode {s} h := by
    refine Record.bind_open? rfl (by simp [Slice.shape, Json.Shape.names]) ?_
    simp -implicitDefEqProofs [Record.required?, Lawful.decode_encode h, Lawful.Legible]

end

/-! ## Jobs, consumers and principals -/

instance : Lawful Uuid where
  Legible _ := True
  taken _ := rfl
  decode_encode {u} _ := u.read?_text

instance : Lawful Instant where
  Legible := Instant.IsCivil
  taken _ := rfl
  decode_encode h := Stamp.read?_text h

theorem legible_instant? {t : Option Instant} (h : ∀ s ∈ t, s.IsCivil) : Lawful.Legible t :=
  fun s hs => ⟨h s hs, nofun⟩

/-- An object with no other members than a duration has is read as its fields. -/
theorem decode?_object {members : List (String × Json)}
    (h : (members.all fun m => Duration.shape.names.contains m.1) = true) :
    (decode? (.object members) : Option Duration) = (do
      let r ← Record.open? Duration.shape (.object members)
      let secs : UInt64 ← r.required? "secs"
      let nanos : UInt32 ← r.required? "nanos"
      Duration.ofNanos? (secs.toNat * nanosPerSecond + nanos.toNat)) :=
  (congrArg (· >>= _) (if_pos h : (guard _ : Option Unit) = some ())).trans rfl

instance : Lawful Duration where
  Legible _ := True
  taken {d} _ := isTaken_object rfl <|
    membersTaken_cons rfl (fitsInteger_nat d.seconds_lt) <|
    membersTaken_cons rfl (fitsInteger_nat (Nat.lt_trans d.subsecond_lt (by decide))) rfl
  decode_encode {d} _ := by
    refine (decode?_object rfl).trans (Record.bind_open? rfl (by decide) ?_)
    have hsecs : d.seconds % 18446744073709551616 = d.seconds := Nat.mod_eq_of_lt d.seconds_lt
    have hnanos : d.subsecond % 4294967296 = d.subsecond := Nat.mod_eq_of_lt d.subsecond_lt
    simp -implicitDefEqProofs [Record.required?, decode?_nat64 d.seconds_lt,
      decode?_nat32 d.subsecond_lt, hsecs, hnanos, d.ofNanos?_parts]

instance : Lawful Backoff where
  Legible _ := True
  taken {b} _ := by cases b <;> rfl
  decode_encode {b} _ := by cases b <;> rfl

instance : Lawful RetryPolicy where
  Legible _ := True
  taken {p} _ := isTaken_object rfl <|
    membersTaken_cons rfl (Lawful.taken (a := p.maxAttempts) trivial) <|
    membersTaken_cons rfl (Lawful.taken (a := p.baseDelay) trivial) <|
    membersTaken_cons rfl (Lawful.taken (a := p.maxDelay) trivial) <|
    membersTaken_cons rfl (Lawful.taken (a := p.backoff) trivial) rfl
  decode_encode {p} _ := by
    refine Record.bind_open? rfl (by decide) ?_
    simp -implicitDefEqProofs [Record.required?, Lawful.Legible]

instance : Lawful JobKind where
  Legible _ := True
  taken {j} _ := by cases j <;> rfl
  decode_encode {j} _ := by cases j <;> rfl

theorem decode?_failed (members : List (String × Json)) :
    (decode? (.object [("failed", .object members)]) : Option JobStatus) = (do
      let r ← Record.open? JobStatus.failedShape (.object members)
      some (.failed (← r.required? "error") (← r.required? "attempt"))) := rfl

theorem decode?_deadLettered (members : List (String × Json)) :
    (decode? (.object [("dead_lettered", .object members)]) : Option JobStatus) = (do
      let r ← Record.open? JobStatus.deadShape (.object members)
      some (.deadLettered (← r.required? "error") (← r.required? "attempts"))) := rfl

instance : Lawful JobStatus where
  Legible _ := True
  taken {s} _ := by
    cases s with
    | failed error attempt =>
      exact isTaken_object rfl <| membersTaken_cons rfl
        (isTaken_object rfl <| membersTaken_cons rfl (Lawful.taken (a := error) trivial) <|
        membersTaken_cons rfl (Lawful.taken (a := attempt) trivial) rfl) rfl
    | deadLettered error attempts =>
      exact isTaken_object rfl <| membersTaken_cons rfl
        (isTaken_object rfl <| membersTaken_cons rfl (Lawful.taken (a := error) trivial) <|
        membersTaken_cons rfl (Lawful.taken (a := attempts) trivial) rfl) rfl
    | _ => rfl
  decode_encode {s} _ := by
    cases s with
    | failed error attempt =>
      refine (decode?_failed _).trans (Record.bind_open? rfl (by decide) ?_)
      simp -implicitDefEqProofs [Record.required?, Lawful.Legible]
    | deadLettered error attempts =>
      refine (decode?_deadLettered _).trans (Record.bind_open? rfl (by decide) ?_)
      simp -implicitDefEqProofs [Record.required?, Lawful.Legible]
    | _ => rfl

instance : Lawful Job where
  Legible := Job.Legible
  taken {j} h := isTaken_object rfl <|
    membersTaken_cons rfl (Lawful.taken (a := j.id) trivial) <|
    membersTaken_cons rfl (Lawful.taken (a := j.kind) trivial) <|
    membersTaken_cons rfl (Lawful.taken (a := j.payload) h.payload) <|
    membersTaken_cons rfl (Lawful.taken (a := j.status) trivial) <|
    membersTaken_cons rfl (Lawful.taken (a := j.policy) trivial) <|
    membersTaken_cons rfl (Lawful.taken (a := j.attempt) trivial) <|
    membersTaken_cons rfl (Lawful.taken (a := j.created) h.created) <|
    membersTaken_cons rfl (Lawful.taken (a := j.updated) h.updated) <|
    membersTaken_cons rfl (Lawful.taken (legible_instant? h.scheduled)) rfl
  decode_encode {j} h := by
    refine Record.bind_open? rfl (by decide) ?_
    have hpayload : decode? j.payload = some j.payload :=
      Lawful.decode_encode (a := j.payload) h.payload
    simp -implicitDefEqProofs [Record.required?, Record.optional?, hpayload,
      Lawful.decode_encode (a := j.created) h.created,
      Lawful.decode_encode (a := j.updated) h.updated,
      Lawful.decode_encode (legible_instant? h.scheduled), Lawful.Legible]

instance : Lawful DeadLetter where
  Legible d := d.job.Legible ∧ d.since.IsCivil
  taken {d} h := isTaken_object rfl <|
    membersTaken_cons rfl (Lawful.taken (a := d.job) h.1) <|
    membersTaken_cons rfl (Lawful.taken (a := d.since) h.2) <|
    membersTaken_cons rfl (Lawful.taken (a := d.reason) trivial) rfl
  decode_encode {d} h := by
    refine Record.bind_open? rfl (by decide) ?_
    simp -implicitDefEqProofs [Record.required?, Lawful.decode_encode (a := d.job) h.1,
      Lawful.decode_encode (a := d.since) h.2]

instance : Lawful Consumer where
  Legible _ := True
  taken {c} _ := isTaken_object rfl <|
    membersTaken_cons rfl (Lawful.taken (a := c.code) trivial) <|
    membersTaken_cons rfl (Lawful.taken (a := c.displayName) trivial) rfl
  decode_encode {c} _ := by
    refine Record.bind_open? rfl (by decide) ?_
    simp -implicitDefEqProofs [Record.required?]

theorem legible_ids {k : Kind} (ids : List (NodeId k)) : Lawful.Legible ids := fun _ _ => trivial

instance : Lawful Principal where
  Legible _ := True
  taken {p} _ := isTaken_object rfl <|
    membersTaken_cons rfl (Lawful.taken (a := p.id) trivial) <|
    membersTaken_cons rfl (Lawful.taken (legible_ids p.roles)) <|
    membersTaken_cons rfl (Lawful.taken (legible_ids p.permissions)) rfl
  decode_encode {p} _ := by
    refine Record.bind_open? rfl (by decide) ?_
    simp -implicitDefEqProofs [Record.required?, Lawful.decode_encode (legible_ids _),
      Lawful.Legible]

/-- A legible value that is not nested too deep is read back from its text. -/
theorem read?_write {α : Type} [Wire α] [Lawful α] {a : α} (h : Lawful.Legible a)
    (hdepth : (encode a).depth ≤ Json.maxDepth) : read? (write a) = some a := by
  rw [read?, write, Json.read?_text (Lawful.taken h) hdepth]
  exact Lawful.decode_encode h

end Wire

end Lineage
