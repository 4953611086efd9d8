import Mathlib
import Lineage.Cache
import Lineage.Proofs.Table

/-!
# Caches that share a server

The caches of several hierarchies may keep their texts on one server. The key of a text begins with
the name of its hierarchy, which ends at the next colon if it has none itself.

* `CacheKey`: what a text is kept for. `CacheKey.text_inj`: its key tells what it is kept for.
* `RemoteCall`: what may be asked of a cache. `perform_congr` and `perform_frame` say that a call
  reads and writes under keys of its own hierarchy only.
* `SharedCall.answers`, `SharedCall.texts`: what several caches answer, and leave on the server.
* `CacheKey.text_separates`: each cache is as if it was alone on the server.
-/

namespace Lineage

/-! ## Keys -/

/-- What a text on a server is kept for: an id or a code of a hierarchy. -/
inductive CacheKey
  | ofId (hierarchy : String) (id : Int)
  | ofCode (hierarchy code : String)
  deriving DecidableEq, Repr

namespace CacheKey

/-- The name of the hierarchy. -/
def hierarchy : CacheKey → String
  | ofId name _ => name
  | ofCode name _ => name

/-- The key. -/
def text : CacheKey → String
  | ofId name id => idKey name id
  | ofCode name code => codeKey name code

/-- What follows the name of the hierarchy and a colon. -/
def tail : CacheKey → String
  | ofId _ id => "id:" ++ id.repr
  | ofCode _ code => "code:" ++ code

theorem toList_text (a : CacheKey) :
    a.text.toList = "trellis:".toList ++ (a.hierarchy.toList ++ ':' :: a.tail.toList) := by
  cases a <;> simp [text, idKey, codeKey, hierarchy, tail]

/-- Before the first colon of a text there is only one way to end. -/
theorem append_colon_inj {xs ys rest rest' : List Char} (hx : ':' ∉ xs) (hy : ':' ∉ ys)
    (h : xs ++ ':' :: rest = ys ++ ':' :: rest') : xs = ys ∧ rest = rest' := by
  induction xs generalizing ys with
  | nil =>
    cases ys with
    | nil => exact ⟨rfl, (List.cons.inj h).2⟩
    | cons y ys => exact absurd ((List.cons.inj h).1 ▸ List.mem_cons_self) hy
  | cons x xs ih =>
    cases ys with
    | nil => exact absurd ((List.cons.inj h).1 ▸ List.mem_cons_self) hx
    | cons y ys =>
      rw [List.mem_cons, not_or] at hx hy
      obtain ⟨rfl, htail⟩ := List.cons.inj h
      obtain ⟨rfl, hrest⟩ := ih hx.2 hy.2 htail
      exact ⟨rfl, hrest⟩

theorem tail_ofId_ne_tail_ofCode (name name' code : String) (id : Int) :
    (ofId name id).tail ≠ (ofCode name' code).tail := by
  intro h
  have hlist := congrArg String.toList h
  simp [tail] at hlist

theorem tail_inj {a b : CacheKey} (hname : a.hierarchy = b.hierarchy) (h : a.tail = b.tail) :
    a = b := by
  cases a with
  | ofId name id =>
    cases b with
    | ofId name' id' =>
      have hid := Int.repr_inj.1 ((String.append_right_inj _).1 h)
      exact congrArg₂ ofId hname hid
    | ofCode => exact absurd h (tail_ofId_ne_tail_ofCode _ _ _ _)
  | ofCode name code =>
    cases b with
    | ofId => exact absurd h.symm (tail_ofId_ne_tail_ofCode _ _ _ _)
    | ofCode name' code' => exact congrArg₂ ofCode hname ((String.append_right_inj _).1 h)

/-- Within a hierarchy, whatever its name, keys are the same only for the same id or code. -/
theorem text_inj_of_hierarchy {a b : CacheKey} (hname : a.hierarchy = b.hierarchy) :
    a.text = b.text ↔ a = b := by
  refine ⟨fun h => tail_inj hname ?_, congrArg _⟩
  have hlist := congrArg String.toList h
  rw [toList_text, toList_text, hname, List.append_right_inj, List.append_right_inj] at hlist
  exact String.toList_inj.1 (List.cons.inj hlist).2

theorem text_inj {a b : CacheKey} (ha : ':' ∉ a.hierarchy.toList) (hb : ':' ∉ b.hierarchy.toList) :
    a.text = b.text ↔ a = b := by
  refine ⟨fun h => ?_, congrArg _⟩
  have hlist := congrArg String.toList h
  rw [toList_text, toList_text, List.append_right_inj] at hlist
  exact (text_inj_of_hierarchy (String.toList_inj.1 (append_colon_inj ha hb hlist).1)).1 h

end CacheKey

theorem NodeId.toInt_inj {k : Kind} {i j : NodeId k} : i.toInt = j.toInt ↔ i = j :=
  ⟨fun h => congrArg NodeId.mk (Int64.toInt_inj.1 h), congrArg _⟩

section

variable {name code code' : String} {id id' : Int}

theorem idKey_ne_codeKey (name code : String) (id : Int) : idKey name id ≠ codeKey name code :=
  fun h => CacheKey.noConfusion
    ((CacheKey.text_inj_of_hierarchy (a := .ofId name id) (b := .ofCode name code) rfl).1 h)

theorem idKey_inj : idKey name id = idKey name id' ↔ id = id' :=
  (CacheKey.text_inj_of_hierarchy (a := .ofId name id) (b := .ofId name id') rfl).trans (by simp)

theorem codeKey_inj : codeKey name code = codeKey name code' ↔ code = code' :=
  (CacheKey.text_inj_of_hierarchy (a := .ofCode name code) (b := .ofCode name code') rfl).trans
    (by simp)

end

/-! ## One cache -/

variable {k j : Kind} {t u : RemoteTexts} {c d : RemoteCache k} {id : NodeId k}

/-- Two servers have the same texts for a hierarchy. -/
def AgreeOn (k : Kind) (t u : RemoteTexts) : Prop :=
  ∀ key : CacheKey, key.hierarchy = k.name → t.get? key.text = u.get? key.text

namespace AgreeOn

theorem refl (k : Kind) (t : RemoteTexts) : AgreeOn k t t := fun _ _ => rfl

theorem erase (h : AgreeOn k t u) (s : String) : AgreeOn k (t.erase s) (u.erase s) := by
  intro key hkey
  rw [Table.get?_erase, Table.get?_erase, h key hkey]

theorem insert (h : AgreeOn k t u) (s : String) (entry : String × Nat) :
    AgreeOn k (t.insert s entry) (u.insert s entry) := by
  intro key hkey
  rw [Table.get?_insert, Table.get?_insert, h key hkey]

end AgreeOn

namespace RemoteCache

theorem get_congr (h : AgreeOn k c.texts d.texts) (id : NodeId k) : c.get id = d.get id := by
  have hid : c.texts.get? (idKey k.name id.toInt) = d.texts.get? (idKey k.name id.toInt) :=
    h (.ofId k.name id.toInt) rfl
  rw [get, get, hid]

theorem getByCode_congr (h : AgreeOn k c.texts d.texts) (code : String) :
    c.getByCode code = d.getByCode code := by
  have hcode : c.texts.get? (codeKey k.name code) = d.texts.get? (codeKey k.name code) :=
    h (.ofCode k.name code) rfl
  simp only [getByCode, hcode, get_congr h]

/-- The texts without that of an id, and without that of its code if there is a view. -/
def forget (texts : RemoteTexts) (id : NodeId k) (cached : Option (NodeView k)) : RemoteTexts :=
  match cached with
  | none => texts.erase (idKey k.name id.toInt)
  | some v => (texts.erase (idKey k.name id.toInt)).erase (codeKey k.name v.node.code)

theorem delete_of_get_ok {cached : Option (NodeView k)} (h : c.get id = .ok cached) :
    c.delete id = .ok { c with texts := forget c.texts id cached } := by
  rw [delete, h]
  cases cached <;> rfl

theorem delete_of_get_error {e : CacheError} (h : c.get id = .error e) :
    c.delete id = .error e := by
  rw [delete, h]
  rfl

theorem get?_forget_of_ne {key : String} {cached : Option (NodeView k)}
    (hid : key ≠ idKey k.name id.toInt) (hcode : ∀ v ∈ cached, key ≠ codeKey k.name v.node.code) :
    (forget t id cached).get? key = t.get? key := by
  cases cached with
  | none => exact Table.get?_erase_of_ne hid t
  | some v => exact (Table.get?_erase_of_ne (hcode v rfl) _).trans (Table.get?_erase_of_ne hid t)

theorem get_forget_self (c : RemoteCache k) (id : NodeId k) (cached : Option (NodeView k)) :
    get { c with texts := forget c.texts id cached } id = .ok none := by
  have htext : (forget c.texts id cached).get? (idKey k.name id.toInt) = none := by
    cases cached with
    | none => exact Table.get?_erase_self ..
    | some v =>
      exact (Table.get?_erase_of_ne (idKey_ne_codeKey _ _ _) _).trans (Table.get?_erase_self ..)
  rw [get, htext]

theorem idKey_ne_of_ne {j : NodeId k} (hj : j ≠ id) :
    idKey k.name j.toInt ≠ idKey k.name id.toInt :=
  fun h => hj (NodeId.toInt_inj.1 (idKey_inj.1 h))

theorem get_forget_of_ne {j : NodeId k} (c : RemoteCache k) (hj : j ≠ id)
    (cached : Option (NodeView k)) :
    get { c with texts := forget c.texts id cached } j = c.get j := by
  rw [get, get, get?_forget_of_ne (idKey_ne_of_ne hj) fun v _ => idKey_ne_codeKey _ _ _]

/-- What is got under an id after a put is what the text of the view spells. -/
theorem get_put (c : RemoteCache k) (v : NodeView k) :
    (c.put v).get v.node.id = match (Wire.read? (Wire.write v) : Option (NodeView k)) with
      | some v => .ok (some v)
      | none => .error (.serialization ("no view: " ++ Wire.write v)) := by
  have htext : (c.put v).texts.get? (idKey k.name v.node.id.toInt) =
      some (Wire.write v, c.life) := by
    simp only [put, Table.get?_insert_of_ne (idKey_ne_codeKey _ _ _), Table.get?_insert_self]
  cases hread : (Wire.read? (Wire.write v) : Option (NodeView k)) with
  | none => simp only [get, htext, hread]
  | some v => simp only [get, htext, hread]

theorem get_put_of_ne {v : NodeView k} (c : RemoteCache k) (hid : id ≠ v.node.id) :
    (c.put v).get id = c.get id := by
  have htext : (c.put v).texts.get? (idKey k.name id.toInt) =
      c.texts.get? (idKey k.name id.toInt) := by
    rw [put, Table.get?_insert_of_ne (idKey_ne_codeKey _ _ _),
      Table.get?_insert_of_ne (idKey_ne_of_ne hid)]
  rw [get, get, htext]

/-- A view that is found after texts got lost was found before. -/
theorem get_of_get_filter {keep : String → String × Nat → Bool} {v : NodeView k}
    (h : get { c with texts := c.texts.filter keep } id = .ok (some v)) :
    c.get id = .ok (some v) := by
  unfold get at h ⊢
  rw [Table.get?_filter] at h
  cases htext : c.texts.get? (idKey k.name id.toInt) with
  | none =>
    rw [htext] at h
    cases h
  | some entry =>
    rw [htext, Option.filter_some] at h
    split at h
    case h_1 => cases h
    case h_2 hkept =>
      split at hkept
      case isTrue =>
        cases hkept
        exact h
      case isFalse => cases hkept

end RemoteCache

theorem AgreeOn.forget (h : AgreeOn k t u) (id : NodeId k) (cached : Option (NodeView k)) :
    AgreeOn k (RemoteCache.forget t id cached) (RemoteCache.forget u id cached) := by
  cases cached with
  | none => exact h.erase _
  | some v => exact (h.erase _).erase _

/-- What may be asked of a cache on a server. -/
inductive RemoteCall (k : Kind)
  | get (id : NodeId k)
  | getByCode (code : String)
  | put (v : NodeView k)
  | delete (id : NodeId k)

namespace RemoteCall

/-- The answer to a call on a cache whose texts live for some seconds, and the texts after it. A
call that fails leaves them as they are. -/
def perform (life : Nat) (texts : RemoteTexts) :
    RemoteCall k → Except CacheError (Option (NodeView k)) × RemoteTexts
  | get id => (RemoteCache.get ⟨life, texts⟩ id, texts)
  | getByCode code => (RemoteCache.getByCode ⟨life, texts⟩ code, texts)
  | put v => (.ok none, (RemoteCache.put ⟨life, texts⟩ v).texts)
  | delete id =>
    match RemoteCache.delete ⟨life, texts⟩ id with
    | .ok c => (.ok none, c.texts)
    | .error e => (.error e, texts)

/-- A call depends on the texts of its hierarchy only. -/
theorem perform_congr (h : AgreeOn k t u) (life : Nat) (call : RemoteCall k) :
    (call.perform life t).1 = (call.perform life u).1 ∧
      AgreeOn k (call.perform life t).2 (call.perform life u).2 := by
  cases call with
  | get id => exact ⟨RemoteCache.get_congr h id, h⟩
  | getByCode code => exact ⟨RemoteCache.getByCode_congr h code, h⟩
  | put v => exact ⟨rfl, (h.insert _ _).insert _ _⟩
  | delete id =>
    have hget : RemoteCache.get ⟨life, t⟩ id = RemoteCache.get ⟨life, u⟩ id :=
      RemoteCache.get_congr h id
    cases hcached : RemoteCache.get ⟨life, u⟩ id with
    | ok cached =>
      simp only [perform, RemoteCache.delete_of_get_ok (hget.trans hcached),
        RemoteCache.delete_of_get_ok hcached]
      exact ⟨trivial, h.forget id cached⟩
    | error e =>
      simp only [perform, RemoteCache.delete_of_get_error (hget.trans hcached),
        RemoteCache.delete_of_get_error hcached]
      exact ⟨trivial, h⟩

/-- A call leaves the texts of other hierarchies alone. -/
theorem perform_frame (hk : ':' ∉ k.name.toList) {key : CacheKey}
    (hkey : ':' ∉ key.hierarchy.toList) (hother : key.hierarchy ≠ k.name) (life : Nat)
    (t : RemoteTexts) (call : RemoteCall k) :
    (call.perform life t).2.get? key.text = t.get? key.text := by
  have hid (n : Int) : key.text ≠ idKey k.name n := fun h =>
    hother (congrArg CacheKey.hierarchy
      ((CacheKey.text_inj (b := .ofId k.name n) hkey hk).1 h))
  have hcode (code : String) : key.text ≠ codeKey k.name code := fun h =>
    hother (congrArg CacheKey.hierarchy
      ((CacheKey.text_inj (b := .ofCode k.name code) hkey hk).1 h))
  cases call with
  | get | getByCode => rfl
  | put v =>
    simp only [perform, RemoteCache.put]
    rw [Table.get?_insert_of_ne (hcode _), Table.get?_insert_of_ne (hid _)]
  | delete id =>
    cases hcached : RemoteCache.get ⟨life, t⟩ id with
    | error e => simp only [perform, RemoteCache.delete_of_get_error hcached]
    | ok cached =>
      simp only [perform, RemoteCache.delete_of_get_ok hcached]
      exact RemoteCache.get?_forget_of_ne (hid _) fun v _ => hcode _

end RemoteCall

/-! ## Several caches -/

/-- A call on the cache of one of several hierarchies. -/
abbrev SharedCall := (k : Kind) × RemoteCall k

namespace SharedCall

/-- The texts after a row of calls on caches that share a server. -/
def texts (life : Kind → Nat) (t : RemoteTexts) (calls : List SharedCall) : RemoteTexts :=
  calls.foldl (fun t call => (call.2.perform (life call.1) t).2) t

/-- The answers to a row of calls on caches that share a server. -/
def answers (life : Kind → Nat) :
    RemoteTexts → List SharedCall → List ((k : Kind) × Except CacheError (Option (NodeView k)))
  | _, [] => []
  | t, ⟨k, call⟩ :: rest =>
    ⟨k, (call.perform (life k) t).1⟩ :: answers life (call.perform (life k) t).2 rest

/-- The calls of other hierarchies make no difference to what is answered to one and kept for it. -/
theorem answers_filter {life : Kind → Nat} {calls : List SharedCall} (hk : ':' ∉ k.name.toList)
    (hcalls : ∀ call ∈ calls, ':' ∉ call.1.name.toList) (h : AgreeOn k t u) :
    (answers life t calls).filter (·.1 = k) = answers life u (calls.filter (·.1 = k)) ∧
      AgreeOn k (texts life t calls) (texts life u (calls.filter (·.1 = k))) := by
  induction calls generalizing t u with
  | nil => exact ⟨rfl, h⟩
  | cons call rest ih =>
    obtain ⟨j, call⟩ := call
    obtain ⟨hj, hrest⟩ := List.forall_mem_cons.1 hcalls
    by_cases hjk : j = k
    · subst hjk
      obtain ⟨hanswer, hagree⟩ := RemoteCall.perform_congr h (life j) call
      obtain ⟨hanswers, htexts⟩ := ih hrest hagree
      rw [answers, List.filter_cons_of_pos (by simp), List.filter_cons_of_pos (by simp), answers,
        hanswer, hanswers]
      exact ⟨rfl, htexts⟩
    · have hagree : AgreeOn k (call.perform (life j) t).2 u := by
        intro key hkey
        have hname : key.hierarchy ≠ j.name := fun h =>
          hjk (congrArg Kind.mk (hkey.symm.trans h)).symm
        rw [RemoteCall.perform_frame hj (hkey ▸ hk) hname]
        exact h key hkey
      rw [answers, List.filter_cons_of_neg (by simpa using hjk),
        List.filter_cons_of_neg (by simpa using hjk)]
      exact ih hrest hagree

end SharedCall

/-- If no hierarchy has a colon in its name, keys of texts are the same only for the same id or code
of the same hierarchy, so what is written or dropped under one key is not seen under another one.
Of caches that share a server each answers, and finds its texts, as if it was alone there. -/
theorem CacheKey.text_separates :
    (∀ a b : CacheKey, ':' ∉ a.hierarchy.toList → ':' ∉ b.hierarchy.toList →
      (a.text = b.text ↔ a = b) ∧
      (a ≠ b → ∀ (t : RemoteTexts) (entry : String × Nat),
        (t.insert a.text entry).get? b.text = t.get? b.text ∧
          (t.erase a.text).get? b.text = t.get? b.text)) ∧
    ∀ (life : Kind → Nat) (t : RemoteTexts) (calls : List SharedCall) (k : Kind),
      ':' ∉ k.name.toList → (∀ call ∈ calls, ':' ∉ call.1.name.toList) →
      (SharedCall.answers life t calls).filter (·.1 = k) =
          SharedCall.answers life t (calls.filter (·.1 = k)) ∧
        AgreeOn k (SharedCall.texts life t calls)
          (SharedCall.texts life t (calls.filter (·.1 = k))) := by
  refine ⟨fun a b ha hb => ⟨text_inj ha hb, fun hne t entry => ?_⟩,
    fun life t calls k hk hcalls => SharedCall.answers_filter hk hcalls (.refl k t)⟩
  have htext : b.text ≠ a.text := fun h => hne ((text_inj hb ha).1 h).symm
  exact ⟨Table.get?_insert_of_ne htext .., Table.get?_erase_of_ne htext _⟩

/-- A code that looks like the end of another key, and an id and a code that two hierarchies
have. -/
theorem CacheKey.text_separates_lookalike :
    let role : Kind := ⟨"role"⟩
    let permission : Kind := ⟨"permission"⟩
    let a : CacheKey := .ofCode role.name "id:-7"
    let b : CacheKey := .ofId role.name (-7)
    let v : NodeView role := ⟨{ id := ⟨-7⟩, code := "id:-7", name := "R" }, true⟩
    let w : NodeView permission := ⟨{ id := ⟨-7⟩, code := "id:-7", name := "P" }, false⟩
    let calls : List SharedCall := [⟨role, .put v⟩, ⟨permission, .put w⟩, ⟨role, .get ⟨-7⟩⟩,
      ⟨permission, .delete ⟨-7⟩⟩, ⟨role, .getByCode "id:-7"⟩]
    (':' ∉ role.name.toList ∧ ':' ∉ permission.name.toList ∧ a ≠ b) ∧ a.text ≠ b.text ∧
      (∀ t : RemoteTexts, (t.erase a.text).get? b.text = t.get? b.text) ∧
      (SharedCall.answers (fun _ => 60) ∅ calls).filter (·.1 = role) =
        SharedCall.answers (fun _ => 60) ∅
          [⟨role, .put v⟩, ⟨role, .get ⟨-7⟩⟩, ⟨role, .getByCode "id:-7"⟩] := by
  intro role permission a b v w calls
  have hrole : ':' ∉ role.name.toList := by decide
  have hpermission : ':' ∉ permission.name.toList := by decide
  have hne : a ≠ b := by decide
  have hcalls : ∀ call ∈ calls, ':' ∉ call.1.name.toList := by
    simp [calls, hrole, hpermission]
  obtain ⟨hkeys, hcaches⟩ := text_separates
  obtain ⟨htext, hframe⟩ := hkeys a b hrole hrole
  obtain ⟨hanswers, -⟩ := hcaches (fun _ => 60) ∅ calls role hrole hcalls
  exact ⟨⟨hrole, hpermission, hne⟩, fun h => hne (htext.1 h), fun t => (hframe hne t ("", 0)).2,
    hanswers⟩

end Lineage
