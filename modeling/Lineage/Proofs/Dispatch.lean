import Lineage.Proofs.Routing

/-!
# Which handler a job gets

In which order the handlers of an executor are looked through is no part of what was registered:
`Executor.handlers` lists them in one order, and any other would do as well. A handler registered
under the very name of a job kind is found whatever the order. Of several prefixes that fit the name
the first one is taken, so that the order decides.

* `Executor.enrolled`: an executor with registrations that were made one after the other.
* `Executor.handlerFrom?`: the handler of a job kind when the handlers come in some order.
* `Executor.Competes`: a handler's prefix fits a name.
* `Executor.enrolled_dispatches`: the handlers that some order leads to; it is one and the same for
  every order iff the name itself is registered or the handlers that compete for it are one.
-/

namespace Lineage.Executor

variable {σ : Type} {x y : Executor σ} {kind : JobKind} {pattern name p : String}
  {h h' : Handler σ} {order : List (String × Handler σ)}

/-! ## Registered handlers -/

/-- Every pattern stands once. -/
def Distinct (x : Executor σ) : Prop := (x.handlers.map (·.1)).Nodup

/-- An executor with registrations that were made one after the other. -/
def enrolled (gate : QueueGate) (registrations : List (String × Handler σ)) : Executor σ :=
  registrations.foldl (fun x r => x.register r.1 r.2) { gate }

theorem mem_handlers_iff (hx : x.Distinct) : (p, h) ∈ x.handlers ↔ x.registered? p = some h := by
  rw [registered?]
  constructor
  · intro hmem
    have hsome : (x.handlers.find? fun e => e.1 == p).isSome :=
      List.find?_isSome.2 ⟨(p, h), hmem, beq_self_eq_true p⟩
    obtain ⟨e, he⟩ := Option.isSome_iff_exists.1 hsome
    have hkey : e.1 = p := by simpa using List.find?_some he
    have hsame : e = (p, h) :=
      List.inj_on_of_nodup_map hx (List.mem_of_find?_eq_some he) hmem hkey
    rw [he, hsame]
    rfl
  · intro hsome
    obtain ⟨e, he, rfl⟩ := Option.map_eq_some_iff.1 hsome
    obtain rfl : e.1 = p := by simpa using List.find?_some he
    exact List.mem_of_find?_eq_some he

theorem Distinct.register (hx : x.Distinct) (pattern : String) (h : Handler σ) :
    (x.register pattern h).Distinct := by
  unfold Distinct Executor.register
  cases hany : x.handlers.any fun e => e.1 == pattern with
  | true =>
    have hkeys : (x.handlers.map fun e => if e.1 == pattern then (pattern, h) else e).map (·.1) =
        x.handlers.map (·.1) := by
      rw [List.map_map]
      refine List.map_congr_left fun e _ => ?_
      by_cases he : e.1 = pattern <;> simp [he]
    simp only [if_true, hkeys]
    exact hx
  | false =>
    have hnew : pattern ∉ x.handlers.map (·.1) := by
      intro hmem
      obtain ⟨e, he, hpattern⟩ := List.mem_map.1 hmem
      simpa [hpattern] using List.any_eq_false.1 hany e he
    rw [if_neg Bool.false_ne_true, List.map_append]
    exact List.nodup_append_comm.1 (List.nodup_cons.2 ⟨hnew, hx⟩)

theorem enrolled_distinct (gate : QueueGate) (registrations : List (String × Handler σ)) :
    (enrolled gate registrations).Distinct := by
  suffices h : ∀ x : Executor σ, x.Distinct →
      (registrations.foldl (fun x r => x.register r.1 r.2) x).Distinct from
    h { gate } List.nodup_nil
  induction registrations with
  | nil => exact fun _ hx => hx
  | cons r rest ih => exact fun x hx => ih (x.register r.1 r.2) (hx.register r.1 r.2)

/-- What is registered under a pattern is what was registered under it last. -/
theorem registered?_enrolled (gate : QueueGate) (registrations : List (String × Handler σ))
    (p : String) : (enrolled gate registrations).registered? p =
      (registrations.reverse.find? fun r => r.1 == p).map (·.2) := by
  induction registrations using List.reverseRecOn with
  | nil => rfl
  | append_singleton rest r ih =>
    rw [enrolled, List.foldl_append, List.foldl_cons, List.foldl_nil, registered?_register,
      List.reverse_append]
    by_cases hp : r.1 = p
    · simp [hp]
    · rw [if_neg (Ne.symm hp)]
      refine ih.trans ?_
      simp [hp]

/-- The same handlers under the same patterns make the same list, but for its order. -/
theorem handlers_perm_iff (hx : x.Distinct) (hy : y.Distinct) :
    y.handlers.Perm x.handlers ↔ ∀ p, y.registered? p = x.registered? p := by
  rw [List.perm_ext_iff_of_nodup (.of_map _ hy) (.of_map _ hx)]
  constructor
  · refine fun h p => Option.ext fun g => ?_
    rw [← mem_handlers_iff hy, ← mem_handlers_iff hx, h]
  · intro h e
    rw [show e = (e.1, e.2) from rfl, mem_handlers_iff hy, mem_handlers_iff hx, h]

/-! ## Searches in any order -/

/-- The handler of a job kind when the handlers come in some order: the one registered under its
name, else the first one whose prefix fits, else the one for any kind. -/
def handlerFrom? (x : Executor σ) (order : List (String × Handler σ)) (kind : JobKind) :
    Option (Handler σ) :=
  match x.registered? kind.typeName with
  | some h => some h
  | none =>
    match order.find? fun e => coversPrefix e.1 kind.typeName with
    | some e => some e.2
    | none => x.registered? "*"

theorem handlerFrom?_handlers (x : Executor σ) (kind : JobKind) :
    x.handlerFrom? x.handlers kind = x.handler? kind := rfl

theorem handlerFrom?_congr (h : ∀ p, y.registered? p = x.registered? p) :
    y.handlerFrom? order kind = x.handlerFrom? order kind := by
  simp only [handlerFrom?, h]

/-- Some order of the handlers leads to the answer. -/
def MayAnswer (x : Executor σ) (kind : JobKind) (answer : Option (Handler σ)) : Prop :=
  ∃ order, order.Perm x.handlers ∧ x.handlerFrom? order kind = answer

/-- The handler is registered under a prefix, followed by `.*`, with which the name begins. -/
def Competes (x : Executor σ) (name : String) (h : Handler σ) : Prop :=
  ∃ p stem rest, p.toList = stem ++ ['.', '*'] ∧ name.toList = stem ++ rest ∧
    x.registered? p = some h

theorem stem?_eq_some {stem : List Char} :
    stem? pattern = some stem ↔ pattern.toList = stem ++ ['.', '*'] := by
  have hreverse : pattern.toList = stem ++ ['.', '*'] ↔
      pattern.toList.reverse = '*' :: '.' :: stem.reverse := by
    rw [← List.reverse_inj]
    simp
  rw [hreverse, stem?]
  split
  case h_1 s h =>
    rw [h, Option.some_inj, List.cons.injEq, List.cons.injEq]
    exact ⟨fun hs => ⟨rfl, rfl, by simp [← hs]⟩, fun hs => by simp [hs.2.2]⟩
  case h_2 h =>
    exact ⟨nofun, fun hs => absurd hs (h stem.reverse)⟩

theorem coversPrefix_iff : coversPrefix pattern name = true ↔
    ∃ stem rest, pattern.toList = stem ++ ['.', '*'] ∧ name.toList = stem ++ rest := by
  simp only [coversPrefix, Option.any_eq_true, stem?_eq_some, List.isPrefixOf_iff_prefix,
    List.IsPrefix]
  constructor
  · rintro ⟨stem, hstem, rest, hrest⟩
    exact ⟨stem, rest, hstem, hrest.symm⟩
  · rintro ⟨stem, rest, hstem, hrest⟩
    exact ⟨stem, hstem, rest, hrest.symm⟩

theorem competes_iff : x.Competes name h ↔
    ∃ p, coversPrefix p name = true ∧ x.registered? p = some h := by
  simp only [Competes, coversPrefix_iff]
  constructor
  · rintro ⟨p, stem, rest, hp, hname, hreg⟩
    exact ⟨p, ⟨stem, rest, hp, hname⟩, hreg⟩
  · rintro ⟨p, ⟨stem, rest, hp, hname⟩, hreg⟩
    exact ⟨p, stem, rest, hp, hname, hreg⟩

/-- A handler that competes may come first, so that it is found. -/
theorem mayAnswer_of_competes (hx : x.Distinct) (hname : x.registered? kind.typeName = none)
    (h : x.Competes kind.typeName h') : x.MayAnswer kind (some h') := by
  obtain ⟨p, hp, hreg⟩ := competes_iff.1 h
  obtain ⟨before, after, hsplit⟩ := List.append_of_mem ((mem_handlers_iff hx).2 hreg)
  refine ⟨(p, h') :: (before ++ after), ?_, ?_⟩
  · rw [hsplit]
    exact List.perm_middle.symm
  · simp only [handlerFrom?, hname, List.find?_cons, hp]

/-- What is found is registered under the name, competes for it, or is for any kind. -/
theorem handlerFrom?_cases (hx : x.Distinct) (horder : order.Perm x.handlers)
    (hname : x.registered? kind.typeName = none) :
    (∃ h, x.Competes kind.typeName h ∧ x.handlerFrom? order kind = some h) ∨
      (∀ h, ¬ x.Competes kind.typeName h) ∧ x.handlerFrom? order kind = x.registered? "*" := by
  rw [handlerFrom?, hname]
  cases hfind : order.find? fun e => coversPrefix e.1 kind.typeName with
  | some e =>
    have hmem : (e.1, e.2) ∈ x.handlers := horder.mem_iff.1 (List.mem_of_find?_eq_some hfind)
    have hfits := List.find?_some hfind
    exact .inl ⟨e.2, competes_iff.2 ⟨e.1, hfits, (mem_handlers_iff hx).1 hmem⟩, rfl⟩
  | none =>
    refine .inr ⟨fun h hh => ?_, rfl⟩
    obtain ⟨p, hp, hreg⟩ := competes_iff.1 hh
    have hmem : (p, h) ∈ order := horder.mem_iff.2 ((mem_handlers_iff hx).2 hreg)
    exact List.find?_eq_none.1 hfind (p, h) hmem hp

/-- The answers that some order leads to: that of the name if it is registered, else those of all
handlers that compete for it, else that for any kind. -/
theorem mayAnswer_iff (hx : x.Distinct) {answer : Option (Handler σ)} :
    x.MayAnswer kind answer ↔
      match x.registered? kind.typeName with
      | some h => answer = some h
      | none => (∃ h, x.Competes kind.typeName h ∧ answer = some h) ∨
          (∀ h, ¬ x.Competes kind.typeName h) ∧ answer = x.registered? "*" := by
  cases hname : x.registered? kind.typeName with
  | some h =>
    have hfound : ∀ order, x.handlerFrom? order kind = some h := fun order => by
      rw [handlerFrom?, hname]
    constructor
    · rintro ⟨order, -, rfl⟩
      exact hfound order
    · rintro rfl
      exact ⟨x.handlers, .refl _, hfound _⟩
  | none =>
    constructor
    · rintro ⟨order, horder, rfl⟩
      exact handlerFrom?_cases hx horder hname
    · rintro (⟨h, hcompetes, rfl⟩ | ⟨hnone, rfl⟩)
      · exact mayAnswer_of_competes hx hname hcompetes
      · refine ⟨x.handlers, .refl _, ?_⟩
        rcases handlerFrom?_cases hx (.refl _) hname with ⟨h, hcompetes, -⟩ | ⟨-, hany⟩
        · exact absurd hcompetes (hnone h)
        · exact hany

/-- The name itself is registered, or the handlers that compete for it are one. -/
def Settles (x : Executor σ) (kind : JobKind) : Prop :=
  x.registered? kind.typeName ≠ none ∨
    ∀ h h', x.Competes kind.typeName h → x.Competes kind.typeName h' → h = h'

/-- Every order leads to one answer iff the patterns settle it. -/
theorem settles_iff (hx : x.Distinct) :
    (∀ order, order.Perm x.handlers → x.handlerFrom? order kind = x.handler? kind) ↔
      x.Settles kind := by
  constructor
  · intro hsame
    refine or_iff_not_imp_left.2 fun hname h h' hh hh' => ?_
    have hone : ∀ g, x.Competes kind.typeName g → some g = x.handler? kind := by
      intro g hg
      obtain ⟨order, horder, hfound⟩ := mayAnswer_of_competes hx (not_not.1 hname) hg
      exact hfound.symm.trans (hsame order horder)
    exact Option.some.inj ((hone h hh).trans (hone h' hh').symm)
  · rintro (hname | hone) order horder
    · obtain ⟨h, hh⟩ := Option.ne_none_iff_exists'.1 hname
      rw [← handlerFrom?_handlers, handlerFrom?, handlerFrom?, hh]
    · rw [← handlerFrom?_handlers]
      cases hname : x.registered? kind.typeName with
      | some h => rw [handlerFrom?, handlerFrom?, hname]
      | none =>
        rcases handlerFrom?_cases hx horder hname, handlerFrom?_cases hx (.refl _) hname with
          ⟨⟨h, hh, he⟩ | ⟨hnone, he⟩, ⟨h', hh', he'⟩ | ⟨hnone', he'⟩⟩
        · rw [he, he', hone h h' hh hh']
        · exact absurd hh (hnone' h)
        · exact absurd hh' (hnone h')
        · rw [he, he']

/-! ## Registrations in any order -/

/-- Whatever is registered, the handlers that a job kind may get depend on the order of the search
alone: a handler registered under the name is always found, one for any kind only if no prefix fits,
and of several handlers whose prefixes fit each one may be found. So the kind has one handler iff
the patterns settle it. What is registered under each pattern decides which handlers these are; when
it was registered makes no difference. -/
theorem enrolled_dispatches (gate : QueueGate) (registrations : List (String × Handler σ))
    (kind : JobKind) :
    let x := enrolled gate registrations
    (∀ answer, x.MayAnswer kind answer ↔
      match x.registered? kind.typeName with
      | some h => answer = some h
      | none => (∃ h, x.Competes kind.typeName h ∧ answer = some h) ∨
          (∀ h, ¬ x.Competes kind.typeName h) ∧ answer = x.registered? "*") ∧
    ((∀ order, order.Perm x.handlers → x.handlerFrom? order kind = x.handler? kind) ↔
      x.Settles kind) ∧
    ∀ others : List (String × Handler σ),
      (∀ p, (others.reverse.find? fun r => r.1 == p).map (·.2) =
        (registrations.reverse.find? fun r => r.1 == p).map (·.2)) →
      ∀ answer, (enrolled gate others).MayAnswer kind answer ↔ x.MayAnswer kind answer := by
  intro x
  have hx : x.Distinct := enrolled_distinct gate registrations
  refine ⟨fun answer => mayAnswer_iff hx, settles_iff hx, fun others hothers answer => ?_⟩
  have hregistered : ∀ p, (enrolled gate others).registered? p = x.registered? p := by
    intro p
    rw [registered?_enrolled, hothers, ← registered?_enrolled]
  have hperm := (handlers_perm_iff hx (enrolled_distinct gate others)).2 hregistered
  refine exists_congr fun order => ?_
  rw [handlerFrom?_congr hregistered]
  exact and_congr_left' ⟨fun h => h.trans hperm, fun h => h.trans hperm.symm⟩

/-- A handler that reports the same of every job. -/
def reporting (result : JobResult) : Handler Unit := fun _ world => (result, world)

/-- Two prefixes fit the name `mail.receipt.send`. -/
def rivalPrefixes : List (String × Handler Unit) :=
  [("mail.*", reporting .success), ("mail.receipt.*", reporting (.failure "boom"))]

/-- The job may get the handler of the shorter prefix, although that was registered last. -/
theorem enrolled_dispatches_swapped :
    (enrolled {} rivalPrefixes.reverse).MayAnswer (.custom "mail.receipt.send")
      (some (reporting .success)) := by
  obtain ⟨-, -, hothers⟩ := enrolled_dispatches {} rivalPrefixes (.custom "mail.receipt.send")
  refine (hothers rivalPrefixes.reverse (fun p => ?_) _).2 ⟨_, .refl _, rfl⟩
  rcases eq_or_ne "mail.*" p with rfl | hp
  · rfl
  · by_cases hp' : "mail.receipt.*" = p <;> simp [rivalPrefixes, hp, hp']

/-- What becomes of a job depends on the order in which the two handlers come. -/
theorem rivals_unsettled :
    let x := enrolled {} rivalPrefixes
    let job := Job.new (.ofNat 7) (.custom "mail.receipt.send") .null ⟨0, false⟩
    let report order := (x.handlerFrom? order job.kind).map fun h => (h job ()).1
    x.handlers.reverse.Perm x.handlers ∧ report x.handlers = some .success ∧
      report x.handlers.reverse = some (.failure "boom") := by
  refine ⟨List.reverse_perm _, ?_, ?_⟩ <;> decide +kernel

end Lineage.Executor
