import Lineage.Json.Reader
import Lineage.Proofs.Numeral

/-!
# Printed JSON is read back

A reader of a shape takes a value as it stands (`Json.isTaken`) if it keeps every member, no number
is a fraction, and no object that is free JSON begins with the embedding key. It finds such a value
again at the start of a text that begins with the printed value, whatever follows, as long as that
does not continue a number (`Json.endsNumber`).

* `stringBody?_flatMap`: escaped characters are read back up to the closing quote.
* `numeral?_repr`, `number?_repr`: an integer is read back from its digits.
* `value?_chars`, `items?_itemChars`, `members?_memberChars`: the reader finds what was printed, by
  induction on its fuel. Two steps for each character are enough.
* `read?_text`: the text of a value is read back.
-/

namespace Lineage.Json

/-! ## Strings -/

theorem hexDigit?_hexDigit : ∀ n < 16, Text.hexDigit? (hexDigit n) = some n := by decide

/-- A control character is read back from its two digits. -/
theorem unicodeEscape?_control {c : Char} (h : c.toNat < 32) (rest : List Char) :
    unicodeEscape? ('0' :: '0' :: hexDigit (c.toNat / 16) :: hexDigit (c.toNat % 16) :: rest) =
      some (c, rest) := by
  have hhigh := hexDigit?_hexDigit (c.toNat / 16) (by omega)
  have hlow := hexDigit?_hexDigit (c.toNat % 16) (by omega)
  have hzero : Text.hexDigit? '0' = some 0 := by decide
  have hvalue : ((0 * 16 + 0) * 16 + c.toNat / 16) * 16 + c.toNat % 16 = c.toNat := by omega
  have hhex : hex4? ('0' :: '0' :: hexDigit (c.toNat / 16) :: hexDigit (c.toNat % 16) :: rest) =
      some (c.toNat, rest) := by
    simp only [hex4?, hzero, hhigh, hlow, Option.bind_eq_bind, Option.bind_some, hvalue]
  simp only [unicodeEscape?, hhex, Option.bind_eq_bind, Option.bind_some]
  rw [if_neg (by omega), if_neg (by omega), Char.ofNat_toNat]

/-- One character of a string is read back, whether it is escaped or not. -/
theorem stringBody?_escape (fuel : Nat) (c : Char) (rest : List Char) :
    stringBody? (fuel + 1) (escape c ++ rest) =
      (stringBody? fuel rest).map fun p => (c :: p.1, p.2) := by
  have hescaped : ∀ (d : Char) (more : List Char), escaped? (d :: more) = some (c, rest) →
      stringBody? (fuel + 1) ('\\' :: d :: more) =
        (stringBody? fuel rest).map fun p => (c :: p.1, p.2) := by
    intro d more h
    simp only [stringBody?, h, Option.bind_eq_bind, Option.bind_some]
    cases stringBody? fuel rest <;> rfl
  unfold escape
  iterate 7
    split
    case isTrue h => exact hescaped _ _ (by rw [h]; rfl)
  split
  case isTrue h => exact hescaped _ _ (unicodeEscape?_control h rest)
  case isFalse hquote hbackslash _ _ _ _ _ hcontrol =>
    rw [List.singleton_append, stringBody?, if_neg hcontrol]
    · cases stringBody? fuel rest <;> rfl
    · exact hquote
    · exact hbackslash

/-- The characters of a string are read back up to the closing quote. -/
theorem stringBody?_flatMap {cs : List Char} {fuel : Nat} (h : cs.length < fuel)
    (rest : List Char) :
    stringBody? fuel (cs.flatMap escape ++ '"' :: rest) = some (cs, rest) := by
  induction cs generalizing fuel with
  | nil =>
    obtain ⟨fuel, rfl⟩ := Nat.exists_eq_succ_of_ne_zero (Nat.ne_of_gt h)
    rfl
  | cons c cs ih =>
    obtain ⟨fuel, rfl⟩ := Nat.exists_eq_succ_of_ne_zero (Nat.ne_of_gt (Nat.zero_lt_of_lt h))
    rw [List.flatMap_cons, List.append_assoc, stringBody?_escape,
      ih (Nat.lt_of_succ_lt_succ h), Option.map_some]

theorem length_escape_pos (c : Char) : 0 < (escape c).length := by
  unfold escape
  repeat' split
  all_goals exact Nat.zero_lt_succ _

theorem length_le_flatMap_escape (cs : List Char) : cs.length ≤ (cs.flatMap escape).length := by
  induction cs with
  | nil => exact Nat.le_refl 0
  | cons c cs ih =>
    rw [List.flatMap_cons, List.length_append, List.length_cons]
    have := length_escape_pos c
    omega

/-- A string between quotes is an opening quote and what is read back as the string. -/
theorem quoted_append (s : String) (rest : List Char) : ∃ body,
    quoted s ++ rest = '"' :: body ∧
      stringBody? (body.length + 1) body = some (s.toList, rest) := by
  refine ⟨s.toList.flatMap escape ++ '"' :: rest, by simp [quoted], stringBody?_flatMap ?_ rest⟩
  have := length_le_flatMap_escape s.toList
  rw [List.length_append]
  omega

/-! ## Numbers -/

/-- Whether a text cannot continue a number that stands before it. -/
def endsNumber : List Char → Bool
  | [] => true
  | c :: _ => (digit? c).isNone && c != '.' && c != 'e' && c != 'E'

theorem digit?_of_isDigit {c : Char} (h : c.isDigit = true) :
    digit? c = some (c.toNat - '0'.toNat) :=
  if_pos (Text.toNat_of_isDigit h)

/-- All leading digits are taken, and nothing else. -/
theorem digits_append {ds rest : List Char} (hds : ∀ c ∈ ds, c.isDigit = true)
    (hrest : endsNumber rest = true) :
    digits (ds ++ rest) = (ds.map fun c => c.toNat - '0'.toNat, rest) := by
  induction ds with
  | nil =>
    cases rest with
    | nil => rfl
    | cons c rest =>
      simp only [endsNumber, Bool.and_eq_true, Option.isNone_iff_eq_none] at hrest
      simp only [List.nil_append, digits, hrest.1.1.1, List.map_nil]
  | cons d ds ih =>
    obtain ⟨hd, hds⟩ := List.forall_mem_cons.1 hds
    simp only [List.cons_append, digits, digit?_of_isDigit hd, ih hds, List.map_cons]

theorem ofDigits_map (ds : List Char) :
    ofDigits (ds.map fun c => c.toNat - '0'.toNat) = Nat.ofDigitChars 10 ds 0 := by
  rw [ofDigits, List.foldl_map, Nat.ofDigitChars_eq_foldl]

/-- Only zero is written with a leading zero. -/
theorem eq_zero_of_toDigits {n : Nat} {cs : List Char} (h : Nat.toDigits 10 n = '0' :: cs) :
    n = 0 ∧ cs = [] := by
  induction n using Nat.strongRecOn generalizing cs with
  | ind n ih =>
    rcases Nat.lt_or_ge n 10 with hn | hn
    · rw [Nat.toDigits_of_lt_base hn, List.cons.injEq, Nat.digitChar_eq_zero] at h
      exact ⟨h.1, h.2.symm⟩
    · rw [Nat.toDigits_of_base_le (by decide) hn] at h
      obtain ⟨ds, hds⟩ : ∃ ds, Nat.toDigits 10 (n / 10) = '0' :: ds := by
        cases hq : Nat.toDigits 10 (n / 10) with
        | nil => exact absurd hq Nat.toDigits_ne_nil
        | cons d ds =>
          rw [hq, List.cons_append, List.cons.injEq] at h
          exact ⟨ds, by rw [h.1]⟩
      have := (ih (n / 10) (by omega) hds).1
      omega

theorem toNat_sub_eq_zero {c : Char} (hc : c.isDigit = true) (h : c.toNat - '0'.toNat = 0) :
    c = '0' := by
  obtain ⟨hlow, -⟩ := Text.toNat_of_isDigit hc
  exact Char.toNat_inj.1 (Nat.le_antisymm (Nat.sub_eq_zero_iff_le.1 h) hlow)

/-- The digits of a natural number are read back as the digits before a point. -/
theorem whole?_repr (n : Nat) {rest : List Char} (hrest : endsNumber rest = true) :
    ∃ ds, whole? (n.repr.toList ++ rest) = some (ds, rest) ∧ ofDigits ds = n := by
  have hdigits : ∀ c ∈ Nat.toDigits 10 n, c.isDigit = true := fun c =>
    Nat.isDigit_of_mem_toDigits (by decide) (by decide)
  rw [Nat.repr_eq_ofList_toDigits, String.toList_ofList]
  refine ⟨_, ?_, (ofDigits_map _).trans Nat.ofDigitChars_ten_toDigits⟩
  simp only [whole?, digits_append hdigits hrest]
  cases hcs : Nat.toDigits 10 n with
  | nil => exact absurd hcs Nat.toDigits_ne_nil
  | cons c cs =>
    rw [List.map_cons]
    split
    case h_1 => simp_all
    case h_2 heq =>
      obtain ⟨⟨h0, hmore⟩, -⟩ := by simpa using heq
      have hc := toNat_sub_eq_zero (hdigits c (hcs ▸ List.mem_cons_self)) h0
      obtain rfl := (eq_zero_of_toDigits (hc ▸ hcs)).2
      cases hmore
    case h_3 => simp_all

theorem fraction?_of_endsNumber {cs : List Char} (h : endsNumber cs = true) :
    fraction? cs = some ([], cs) := by
  unfold fraction?
  split
  case h_1 => simp [endsNumber] at h
  case h_2 => rfl

theorem exponent?_of_endsNumber {cs : List Char} (h : endsNumber cs = true) :
    exponent? cs = some (none, cs) := by
  cases cs with
  | nil => rfl
  | cons c cs =>
    simp only [endsNumber, Bool.and_eq_true, bne_iff_ne] at h
    exact if_neg (not_or.2 ⟨h.1.2, h.2⟩)

/-- The characters that a number begins with. -/
theorem repr_head (n : Int) : ∃ c cs, n.repr.toList = c :: cs ∧ (c = '-' ∨ c.isDigit = true) := by
  rw [Int.repr_eq_if]
  split
  · obtain ⟨c, cs, hcs⟩ := List.exists_cons_of_ne_nil (Text.repr_ne_nil n.toNat)
    exact ⟨c, cs, hcs, .inr (Text.isDigit_of_mem_repr (hcs ▸ List.mem_cons_self))⟩
  · exact ⟨'-', _, by rw [String.toList_append]; rfl, .inl rfl⟩

section

variable {cs rest : List Char} {ds : List Nat} (hrest : endsNumber rest = true)

include hrest

theorem numeral?_minus (hds : whole? cs = some (ds, rest)) :
    numeral? ('-' :: cs) = some (⟨true, ds, [], none⟩, rest) := by
  simp only [numeral?, hds, fraction?_of_endsNumber hrest, exponent?_of_endsNumber hrest,
    Option.bind_eq_bind, Option.bind_some]

theorem numeral?_of_ne {c : Char} (hc : c ≠ '-') (hds : whole? (c :: cs) = some (ds, rest)) :
    numeral? (c :: cs) = some (⟨false, ds, [], none⟩, rest) := by
  unfold numeral?
  split
  case h_1 heq =>
    split at heq
    case h_1 hminus => exact absurd (List.cons.inj hminus).1 hc
    case h_2 =>
      obtain ⟨rfl, rfl⟩ := Prod.mk.inj heq
      simp only [hds, fraction?_of_endsNumber hrest, exponent?_of_endsNumber hrest,
        Option.bind_eq_bind, Option.bind_some]

end

/-- The text of an integer is read as a sign and the digits of its absolute value. -/
theorem numeral?_repr (n : Int) {rest : List Char} (hrest : endsNumber rest = true) :
    ∃ ds, numeral? (n.repr.toList ++ rest) = some (⟨decide (n < 0), ds, [], none⟩, rest) ∧
      ofDigits ds = n.natAbs := by
  obtain ⟨ds, hds, hvalue⟩ := whole?_repr n.natAbs hrest
  refine ⟨ds, ?_, hvalue⟩
  rw [Int.repr_eq_if]
  split
  case isTrue hn =>
    rw [decide_eq_false (Int.not_lt.2 hn)]
    rw [show n.natAbs = n.toNat by omega] at hds
    obtain ⟨c, cs, hcs⟩ := List.exists_cons_of_ne_nil (Text.repr_ne_nil n.toNat)
    have hc : c ≠ '-' := by
      rintro rfl
      exact absurd (Text.isDigit_of_mem_repr (hcs ▸ List.mem_cons_self)) (by decide)
    rw [hcs] at hds ⊢
    exact numeral?_of_ne hrest hc hds
  case isFalse hn =>
    rw [decide_eq_true (Int.not_le.1 hn)]
    rw [show n.natAbs = (-n).toNat by omega] at hds
    rw [String.toList_append]
    exact numeral?_minus hrest hds

/-- An integer of 64 bits is read back. -/
theorem number?_repr {n : Int} (hn : fitsInteger n = true) {rest : List Char}
    (hrest : endsNumber rest = true) :
    (do
      let (m, rest) ← numeral? (n.repr.toList ++ rest)
      some (Json.number (← m.number?), rest)) = some (.int n, rest) := by
  obtain ⟨ds, hds, hvalue⟩ := numeral?_repr n hrest
  have hsigned : (if decide (n < 0) = true then -(n.natAbs : Int) else n.natAbs) = n := by
    by_cases hneg : n < 0
    · rw [if_pos (decide_eq_true hneg)]
      omega
    · rw [if_neg (by simpa using hneg)]
      omega
  have hnumber : Numeral.number? ⟨decide (n < 0), ds, [], none⟩ = some (.integer n) := by
    simp only [Numeral.number?, hvalue, hsigned]
    exact if_pos ⟨rfl, rfl, hn, fun h => by simp_all⟩
  simp only [hds, hnumber, Option.bind_eq_bind, Option.bind_some]
  rfl

/-! ## Values -/

mutual

/-- How deep a value is nested. -/
def depth : Json → Nat
  | .array items => itemsDepth items + 1
  | .object members => membersDepth members + 1
  | _ => 0
termination_by structural j => j

/-- `depth` of the deepest item. -/
def itemsDepth : List Json → Nat
  | [] => 0
  | j :: rest => max j.depth (itemsDepth rest)
termination_by structural items => items

/-- `depth` of the deepest member. -/
def membersDepth : List (String × Json) → Nat
  | [] => 0
  | (_, j) :: rest => max j.depth (membersDepth rest)
termination_by structural members => members

end

mutual

/-- Whether a reader of a shape takes a value as it stands: no number is a fraction, the shape has
a place for every member, and no free object begins with the embedding key. -/
def isTaken : Shape → Json → Bool
  | _, .number (.integer n) => fitsInteger n
  | _, .number (.binary _) => false
  | shape, .array items => itemsTaken shape 0 items
  | shape, .object members => !opensEmbedding shape members && membersTaken shape members
  | _, _ => true
termination_by structural _ j => j

/-- `isTaken` of every item, the first at an index. -/
def itemsTaken : Shape → (index : Nat) → List Json → Bool
  | _, _, [] => true
  | shape, index, j :: rest =>
    isTaken (shape.item index) j && itemsTaken shape (index + 1) rest
termination_by structural _ _ items => items

/-- `isTaken` of every member. -/
def membersTaken : Shape → List (String × Json) → Bool
  | _, [] => true
  | shape, (key, j) :: rest =>
    (match shape.member? key with
      | some s => isTaken s j
      | none => false) && membersTaken shape rest
termination_by structural _ members => members

end

/-- Whether a text begins with anything but a blank or the end of an array. -/
def beginsValue : List Char → Bool
  | [] => false
  | c :: _ => !isBlank c && c != ']'

theorem skipBlanks_of_beginsValue {cs : List Char} (h : beginsValue cs = true) :
    skipBlanks cs = cs := by
  cases cs with
  | nil => rfl
  | cons c cs =>
    simp only [beginsValue, Bool.and_eq_true, Bool.not_eq_true'] at h
    exact List.dropWhile_cons_of_neg (by simp [h.1])

theorem beginsValue_number {c : Char} (h : c = '-' ∨ c.isDigit = true) (cs : List Char) :
    beginsValue (c :: cs) = true := by
  rcases h with rfl | h
  · rfl
  · obtain ⟨hlow, hhigh⟩ := Text.toNat_of_isDigit h
    have hne : ∀ d : Char, d.toNat < 48 ∨ 57 < d.toNat → c ≠ d := by
      rintro d hd rfl
      omega
    simp [beginsValue, isBlank, hne]

theorem beginsValue_chars {shape : Shape} {j : Json} (h : isTaken shape j = true)
    (rest : List Char) : beginsValue (j.chars ++ rest) = true := by
  cases j with
  | bool b => cases b <;> rfl
  | number n =>
    cases n with
    | integer n =>
      obtain ⟨c, cs, hcs, hc⟩ := repr_head n
      rw [chars, Number.chars, hcs]
      exact beginsValue_number hc _
    | binary x => simp [isTaken] at h
  | _ => rfl

theorem value?_number {c : Char} (hc : c = '-' ∨ c.isDigit = true) (cs : List Char)
    (fuel depth : Nat) (shape : Shape) :
    value? (fuel + 1) depth shape (c :: cs) = (do
      let (m, rest) ← numeral? (c :: cs)
      some (.number (← m.number?), rest)) := by
  have hne : ∀ d : Char, d ≠ '-' → d.isDigit = false → c ≠ d := by
    rintro d hd hdigit rfl
    simp [hd, hdigit] at hc
  rw [value?, skipBlanks_of_beginsValue (beginsValue_number hc cs)]
  split
  case h_1 heq | h_2 heq | h_3 heq | h_4 heq | h_5 heq | h_6 heq =>
    exact absurd (List.cons.inj heq).1 (hne _ (by decide) (by decide))
  case h_7 => rfl

/-- A key and its colon are read back. -/
theorem key?_quoted (k : String) (rest : List Char) :
    key? (quoted k ++ ':' :: rest) = some (k, rest) := by
  obtain ⟨body, hquoted, hbody⟩ := quoted_append k (':' :: rest)
  have hblank : skipBlanks ('"' :: body) = '"' :: body := rfl
  have hcolon : skipBlanks (':' :: rest) = ':' :: rest := rfl
  simp only [key?, hquoted, hblank, hbody, hcolon, Option.bind_eq_bind, Option.bind_some,
    String.ofList_toList]

theorem value?_items {cs : List Char} (h : beginsValue cs = true) (fuel depth : Nat)
    (shape : Shape) :
    value? (fuel + 1) (depth + 1) shape ('[' :: cs) = (do
      let (items, rest) ← items? fuel depth shape 0 cs
      some (.array items, rest)) := by
  have hopen : skipBlanks ('[' :: cs) = '[' :: cs := rfl
  simp only [value?, hopen, skipBlanks_of_beginsValue h]
  split
  case h_1 => simp [beginsValue] at h
  case h_2 => rfl

/-- The members that are read after an opening brace are kept, if they do not begin with the
embedding key. -/
theorem value?_members {cs rest : List Char} {fuel depth : Nat} {shape : Shape}
    {members : List (String × Json)} (hopens : opensEmbedding shape members = false)
    (hread : members? fuel depth shape ('"' :: cs) = some (members, rest)) :
    value? (fuel + 1) (depth + 1) shape ('\x7b' :: '"' :: cs) = some (.object members, rest) := by
  have hopen : skipBlanks ('\x7b' :: '"' :: cs) = '\x7b' :: '"' :: cs := rfl
  have hquote : skipBlanks ('"' :: cs) = '"' :: cs := rfl
  rw [value?, hopen]
  simp only [hquote]
  refine (congrArg (· >>= _) hread).trans ?_
  cases shape with
  | free =>
    cases members with
    | nil => rfl
    | cons m others => exact if_neg (by simpa [opensEmbedding] using hopens)
  | _ => rfl

theorem itemChars_cons_cons (j i : Json) (items : List Json) :
    itemChars (j :: i :: items) = j.chars ++ ',' :: itemChars (i :: items) := rfl

theorem memberChars_cons_cons (k : String) (j : Json) (m : String × Json)
    (members : List (String × Json)) :
    memberChars ((k, j) :: m :: members) =
      quoted k ++ ':' :: (j.chars ++ ',' :: memberChars (m :: members)) := rfl

theorem beginsValue_itemChars {shape : Shape} {j : Json} (h : isTaken shape j = true)
    (items : List Json) (rest : List Char) :
    beginsValue (itemChars (j :: items) ++ rest) = true := by
  cases items with
  | nil => exact beginsValue_chars h rest
  | cons i items =>
    rw [itemChars_cons_cons, List.append_assoc]
    exact beginsValue_chars h _

theorem length_chars_pos {shape : Shape} {j : Json} (h : isTaken shape j = true) :
    0 < j.chars.length := by
  have hbegins := beginsValue_chars h []
  cases hcs : j.chars with
  | nil => simp [hcs, beginsValue] at hbegins
  | cons c cs => exact Nat.succ_pos _

mutual

/-- A reader of a shape that takes the value finds it again at the start of a text. -/
theorem value?_chars (j : Json) {fuel depth : Nat} {shape : Shape} {rest : List Char}
    (htaken : isTaken shape j = true) (hdepth : j.depth ≤ depth) (hrest : endsNumber rest = true)
    (hfuel : 2 * j.chars.length ≤ fuel + 1) :
    value? fuel depth shape (j.chars ++ rest) = some (j, rest) := by
  have hlength := length_chars_pos htaken
  obtain ⟨fuel, rfl⟩ := Nat.exists_eq_succ_of_ne_zero (by omega : fuel ≠ 0)
  match j, htaken, hdepth, hfuel with
  | .null, _, _, _ => rfl
  | .bool true, _, _, _ => rfl
  | .bool false, _, _, _ => rfl
  | .number (.integer n), htaken, _, _ =>
    obtain ⟨c, cs, hcs, hc⟩ := repr_head n
    have hread := number?_repr htaken hrest
    rw [hcs] at hread
    rw [chars, Number.chars, hcs]
    exact (value?_number hc _ fuel depth shape).trans hread
  | .string s, _, _, _ =>
    obtain ⟨body, hquoted, hbody⟩ := quoted_append s rest
    have hblank : skipBlanks ('"' :: body) = '"' :: body := rfl
    simp only [chars, value?, hquoted, hblank, hbody, Option.bind_eq_bind, Option.bind_some,
      String.ofList_toList]
  | .array items, htaken, hdepth, hfuel =>
    obtain ⟨depth, rfl⟩ := Nat.exists_eq_succ_of_ne_zero
      (Nat.ne_of_gt (Nat.lt_of_lt_of_le (Nat.succ_pos _) hdepth))
    cases items with
    | nil => rfl
    | cons i items =>
      rw [isTaken] at htaken
      simp only [chars, List.length_cons, List.length_append] at hfuel
      have hi : isTaken (shape.item 0) i = true := (Bool.and_eq_true_iff.1 htaken).1
      have hread := items?_itemChars i items rest htaken (Nat.le_of_succ_le_succ hdepth)
        (by omega : _ ≤ fuel)
      rw [chars, List.cons_append, List.append_assoc, List.singleton_append,
        value?_items (beginsValue_itemChars hi items _), hread]
      rfl
  | .object members, htaken, hdepth, hfuel =>
    obtain ⟨depth, rfl⟩ := Nat.exists_eq_succ_of_ne_zero
      (Nat.ne_of_gt (Nat.lt_of_lt_of_le (Nat.succ_pos _) hdepth))
    match members, htaken, hdepth, hfuel with
    | [], _, _, _ => rfl
    | (k, j) :: members, htaken, hdepth, hfuel =>
      rw [isTaken, Bool.and_eq_true, Bool.not_eq_true'] at htaken
      simp only [chars, List.length_cons, List.length_append] at hfuel
      have hread := members?_memberChars k j members rest htaken.2
        (Nat.le_of_succ_le_succ hdepth) (by omega : _ ≤ fuel)
      rw [chars, List.cons_append, List.append_assoc, List.singleton_append]
      obtain ⟨cs, hcs⟩ : ∃ cs, memberChars ((k, j) :: members) ++ '\x7d' :: rest = '"' :: cs := by
        cases members <;> exact ⟨_, rfl⟩
      rw [hcs] at hread ⊢
      exact value?_members htaken.1 hread
termination_by fuel

/-- Items are read back up to the closing bracket. -/
theorem items?_itemChars (j : Json) (items : List Json) (rest : List Char)
    {fuel depth index : Nat} {shape : Shape}
    (htaken : itemsTaken shape index (j :: items) = true)
    (hdepth : itemsDepth (j :: items) ≤ depth)
    (hfuel : 2 * (itemChars (j :: items)).length ≤ fuel) :
    items? fuel depth shape index (itemChars (j :: items) ++ ']' :: rest) =
      some (j :: items, rest) := by
  rw [itemsTaken, Bool.and_eq_true] at htaken
  rw [itemsDepth, Nat.max_le] at hdepth
  have hlength := length_chars_pos htaken.1
  match items, htaken, hdepth, hfuel with
  | [], htaken, hdepth, hfuel =>
    rw [itemChars] at hfuel ⊢
    obtain ⟨fuel, rfl⟩ := Nat.exists_eq_succ_of_ne_zero (by omega : fuel ≠ 0)
    rw [items?, value?_chars j htaken.1 hdepth.1 rfl (by omega)]
    rfl
  | i :: items, htaken, hdepth, hfuel =>
    rw [itemChars_cons_cons, List.length_append, List.length_cons] at hfuel
    obtain ⟨fuel, rfl⟩ := Nat.exists_eq_succ_of_ne_zero (by omega : fuel ≠ 0)
    have hread := items?_itemChars i items rest htaken.2 hdepth.2
      (by omega : _ ≤ fuel)
    have hcomma : ∀ cs, skipBlanks (',' :: cs) = ',' :: cs := fun _ => rfl
    rw [itemChars_cons_cons, List.append_assoc, List.cons_append, items?,
      value?_chars j htaken.1 hdepth.1 rfl (by omega)]
    simp only [hcomma, hread, Option.bind_eq_bind, Option.bind_some]
termination_by fuel

/-- Members are read back up to the closing brace. -/
theorem members?_memberChars (k : String) (j : Json) (members : List (String × Json))
    (rest : List Char) {fuel depth : Nat} {shape : Shape}
    (htaken : membersTaken shape ((k, j) :: members) = true)
    (hdepth : membersDepth ((k, j) :: members) ≤ depth)
    (hfuel : 2 * (memberChars ((k, j) :: members)).length ≤ fuel) :
    members? fuel depth shape (memberChars ((k, j) :: members) ++ '\x7d' :: rest) =
      some ((k, j) :: members, rest) := by
  rw [membersTaken, Bool.and_eq_true] at htaken
  rw [membersDepth, Nat.max_le] at hdepth
  obtain ⟨s, hs, hj⟩ : ∃ s, shape.member? k = some s ∧ isTaken s j = true := by
    cases hs : shape.member? k with
    | none => simp [hs] at htaken
    | some s => exact ⟨s, rfl, by simpa [hs] using htaken.1⟩
  match members, htaken, hdepth, hfuel with
  | [], htaken, hdepth, hfuel =>
    simp only [memberChars, List.length_append, List.length_cons] at hfuel
    obtain ⟨fuel, rfl⟩ := Nat.exists_eq_succ_of_ne_zero (by omega : fuel ≠ 0)
    have hvalue := value?_chars j hj hdepth.1 (rfl : endsNumber ('\x7d' :: rest) = true)
      (by omega : _ ≤ fuel + 1)
    have hbrace : skipBlanks ('\x7d' :: rest) = '\x7d' :: rest := rfl
    rw [memberChars, List.append_assoc, List.cons_append, members?, key?_quoted]
    simp only [hs, hvalue, hbrace, Option.bind_eq_bind, Option.bind_some]
  | (l, i) :: members, htaken, hdepth, hfuel =>
    simp only [memberChars_cons_cons, List.length_append, List.length_cons] at hfuel
    obtain ⟨fuel, rfl⟩ := Nat.exists_eq_succ_of_ne_zero (by omega : fuel ≠ 0)
    have hread := members?_memberChars l i members rest htaken.2 hdepth.2
      (by omega : _ ≤ fuel)
    have hcomma : ∀ cs, skipBlanks (',' :: cs) = ',' :: cs := fun _ => rfl
    have hvalue : ∀ cs, value? fuel depth s (j.chars ++ ',' :: cs) = some (j, ',' :: cs) :=
      fun cs => value?_chars j hj hdepth.1 rfl (by omega)
    rw [memberChars_cons_cons, List.append_assoc, List.cons_append, List.append_assoc,
      List.cons_append, members?, key?_quoted]
    simp only [hs, hvalue, hcomma, hread, Option.bind_eq_bind, Option.bind_some,
      List.singleton_append]
termination_by fuel

end

/-- The text of a value is read back by a reader of a shape that takes the value, if the value is
not nested too deep. -/
theorem read?_text {shape : Shape} {j : Json} (htaken : isTaken shape j = true)
    (hdepth : j.depth ≤ maxDepth) : read? shape j.text = some j := by
  have hread := value?_chars j htaken hdepth (rfl : endsNumber [] = true)
    (by omega : _ ≤ 2 * j.chars.length + 2 + 1)
  rw [List.append_nil] at hread
  simp only [read?, text, String.toList_ofList, hread]
  rfl

end Lineage.Json
