import GManager.CodeUnits
import GManager.Decimal
import GManager.Delimited
import Mathlib.Data.List.Sort

/-!
# Canonical request hashing

`CanonicalRequestHasher` hashes a JSON body under a canonical text: members in the order of their names,
numbers in plain notation, no white space. Texts keep the type and the order the Java strings have and
`writeValueAsString` is a parameter; a body is what `readTree` makes of its bytes. The canonical text
is the same for two trees exactly when they differ in the order of members and the notation of numbers
only. Its bytes are the same for more trees than these: `getBytes` writes a question mark for a surrogate
that is not part of a pair, and JSON can spell such texts.
-/

namespace GManager

/-- The trees `readTree` returns. A number carries what its `decimalValue()` is. -/
inductive Json (Text : Type) where
  | null
  | bool (value : Bool)
  | number (value : BigDecimal)
  | text (value : Text)
  | array (items : List (Json Text))
  | object (members : List (Text × Json Text))

variable {Text : Type}

namespace Json

/-- No object names a member twice. -/
inductive Distinct : Json Text → Prop
  | null : Distinct null
  | bool (value : Bool) : Distinct (bool value)
  | number (value : BigDecimal) : Distinct (number value)
  | text (value : Text) : Distinct (text value)
  | array {items : List (Json Text)} (hitems : ∀ t ∈ items, Distinct t) : Distinct (array items)
  | object {members : List (Text × Json Text)} (hnames : (members.map Prod.fst).Nodup)
      (hmembers : ∀ m ∈ members, Distinct m.2) : Distinct (object members)

/-- The same request: equal up to the order of members and the notation of numbers. -/
inductive Same : Json Text → Json Text → Prop
  | null : Same null null
  | bool (value : Bool) : Same (bool value) (bool value)
  | number {m n : BigDecimal} (hvalue : m.value = n.value) : Same (number m) (number n)
  | text (value : Text) : Same (text value) (text value)
  | array {xs ys : List (Json Text)} (hlength : xs.length = ys.length)
      (hitems : ∀ (i : ℕ) x y, xs[i]? = some x → ys[i]? = some y → Same x y) : Same (array xs) (array ys)
  | object {ms ns : List (Text × Json Text)}
      (hnames : ∀ name, name ∈ ms.map Prod.fst ↔ name ∈ ns.map Prod.fst)
      (hmembers : ∀ name x y, (name, x) ∈ ms → (name, y) ∈ ns → Same x y) : Same (object ms) (object ns)

theorem nodup_unique {α : Type*} {members : List (Text × α)} (h : (members.map Prod.fst).Nodup)
    {name : Text} {x y : α} (hx : (name, x) ∈ members) (hy : (name, y) ∈ members) : x = y := by
  have := List.inj_on_of_nodup_map h hx hy rfl
  simpa using this

theorem Same.of_items {xs ys : List (Json Text)} (h : List.Forall₂ Same xs ys) :
    Same (.array xs) (.array ys) := by
  refine .array h.length_eq fun i x y hx hy => ?_
  obtain ⟨hi, rfl⟩ := List.getElem?_eq_some_iff.1 hx
  obtain ⟨hi', rfl⟩ := List.getElem?_eq_some_iff.1 hy
  exact List.forall₂_iff_get.1 h |>.2 i hi hi'

/-- Every text of the tree, also the names of its members, meets `P`. -/
inductive All (P : Text → Prop) : Json Text → Prop
  | null : All P null
  | bool (value : Bool) : All P (bool value)
  | number (value : BigDecimal) : All P (number value)
  | text {value : Text} (hvalue : P value) : All P (text value)
  | array {items : List (Json Text)} (hitems : ∀ t ∈ items, All P t) : All P (array items)
  | object {members : List (Text × Json Text)} (hnames : ∀ m ∈ members, P m.1)
      (hmembers : ∀ m ∈ members, All P m.2) : All P (object members)

end Json

namespace CanonicalRequestHasher

variable [LinearOrder Text] (jsonString : Text → List CodeUnit)

def member (m : Text × List CodeUnit) : List CodeUnit := jsonString m.1 ++ unit ':' :: m.2

def joined (texts : List (List CodeUnit)) : List CodeUnit := [unit ','].intercalate texts

/-- Members in the natural order of their names. -/
def sorted {α : Type*} (members : List (Text × α)) : List (Text × α) :=
  members.insertionSort (fun m n => m.1 ≤ n.1)

mutual

def canonical : Json Text → List CodeUnit
  | .null => units "null"
  | .object members =>
    unit '\x7b' :: (joined ((sorted (canonicalMembers members)).map (member jsonString)) ++ [unit '\x7d'])
  | .array items => unit '[' :: (joined (canonicalItems items) ++ [unit ']'])
  | .number value => value.plain.map unit
  | .text value => jsonString value
  | .bool value => if value then units "true" else units "false"

def canonicalItems : List (Json Text) → List (List CodeUnit)
  | [] => []
  | t :: items => canonical t :: canonicalItems items

def canonicalMembers : List (Text × Json Text) → List (Text × List CodeUnit)
  | [] => []
  | (name, t) :: members => (name, canonical t) :: canonicalMembers members

end

/-- Equal up to the order of members, the notation of numbers and what `quote` forgets of texts: the members
are alike one by one in the order of their names. -/
inductive Alike (quote : Text → List CodeUnit) : Json Text → Json Text → Prop
  | null : Alike quote .null .null
  | bool (value : Bool) : Alike quote (.bool value) (.bool value)
  | number {m n : BigDecimal} (hvalue : m.value = n.value) : Alike quote (.number m) (.number n)
  | text {s s' : Text} (htext : quote s = quote s') : Alike quote (.text s) (.text s')
  | array {xs ys : List (Json Text)} (hlength : xs.length = ys.length)
      (hitems : ∀ (i : ℕ) x y, xs[i]? = some x → ys[i]? = some y → Alike quote x y) :
      Alike quote (.array xs) (.array ys)
  | object {ms ns : List (Text × Json Text)} (hlength : ms.length = ns.length)
      (hnames : ∀ (i : ℕ) m n, (sorted ms)[i]? = some m → (sorted ns)[i]? = some n → quote m.1 = quote n.1)
      (hmembers : ∀ (i : ℕ) m n, (sorted ms)[i]? = some m → (sorted ns)[i]? = some n → Alike quote m.2 n.2) :
      Alike quote (.object ms) (.object ns)

/-! ## Quoted strings -/

/-- What is left behind the quote that ends the string, past escaped characters. -/
def closes : List CodeUnit → Option (List CodeUnit)
  | [] => none
  | [c] => if c = unit '"' then some [] else none
  | c :: d :: rest =>
    if c = unit '"' then some (d :: rest) else if c = unit '\\' then closes rest else closes (d :: rest)

/-- A JSON string: it opens with a quote and the first quote that is not escaped is its last character. -/
def Quoted (s : List CodeUnit) : Prop := ∃ body, s = unit '"' :: body ∧ closes body = some []

theorem closes_append {body left : List CodeUnit} (rest : List CodeUnit) (h : closes body = some left) :
    closes (body ++ rest) = some (left ++ rest) := by
  fun_induction closes body with
  | case1 => cases h
  | case2 =>
    cases h
    cases rest with
    | nil => rfl
    | cons d rest => rfl
  | case3 => cases h
  | case4 d body =>
    cases h
    rfl
  | case5 d body hquote ih => simpa [closes, hquote] using ih h
  | case6 c d body hquote hescape ih => simpa [closes, hquote, hescape] using ih h

/-- A quoted string is cut off any stream. -/
theorem Quoted.append {s s' rest rest' : List CodeUnit} (hs : Quoted s) (hs' : Quoted s')
    (h : s ++ rest = s' ++ rest') : s = s' ∧ rest = rest' := by
  obtain ⟨body, rfl, hbody⟩ := hs
  obtain ⟨body', rfl, hbody'⟩ := hs'
  simp only [List.cons_append, List.cons.injEq, true_and] at h
  have hrest : rest = rest' := by
    have h1 := closes_append rest hbody
    have h2 := closes_append rest' hbody'
    rw [h, h2] at h1
    simpa using h1.symm
  subst hrest
  exact ⟨by rw [List.append_cancel_right h], rfl⟩

theorem closes_cons {c : CodeUnit} (hquote : c ≠ unit '"') (hescape : c ≠ unit '\\') (rest : List CodeUnit) :
    closes (c :: rest) = closes rest := by
  cases rest with
  | nil => simp [closes, hquote]
  | cons d rest => simp [closes, hquote, hescape]

/-- A surrogate neither ends nor escapes. -/
theorem closes_surrogate {c : CodeUnit} (hc : c.IsSurrogate) (rest : List CodeUnit) :
    closes (c :: rest) = closes rest := by
  refine closes_cons ?_ ?_ rest
  · rintro rfl
    exact absurd hc (by decide)
  · rintro rfl
    exact absurd hc (by decide)

theorem closes_plain {c : CodeUnit} (hc : c.IsSurrogate) (rest : List CodeUnit) :
    closes (c.plain :: rest) = closes rest := by
  rw [CodeUnit.plain, if_pos hc]
  exact closes_cons (by decide) (by decide) rest

/-- The question marks stand inside of the quoted strings. -/
theorem closes_written (s : List CodeUnit) : closes (written s) = (closes s).map written := by
  have hquote : ¬ (unit '"').IsSurrogate := by decide
  have hescape : ¬ (unit '\\').IsSurrogate := by decide
  fun_induction closes s with
  | case1 => rfl
  | case2 => rfl
  | case3 c hc =>
    by_cases hs : c.IsSurrogate
    · exact closes_plain hs []
    · rw [written_cons_of_not hs]
      simp [written, closes, hc]
  | case4 d rest =>
    obtain ⟨x, xs, hx⟩ : ∃ x xs, written (d :: rest) = x :: xs :=
      List.exists_cons_of_ne_nil (written_ne_nil d rest)
    rw [written_cons_of_not hquote, hx, closes, if_pos rfl, ← hx]
    rfl
  | case5 d rest hne ih =>
    -- what the backslash escapes is one code unit on both sides, be it the first half of a pair
    rw [written_cons_of_not hescape, ← ih]
    cases rest with
    | nil => rfl
    | cons e rest =>
      rw [written]
      split
      · rename_i hp
        rw [written_cons hp.2.not_high, closes_plain hp.2.surrogate, closes, if_neg hne, if_pos rfl,
          closes_surrogate hp.2.surrogate]
      · rw [closes, if_neg hne, if_pos rfl]
  | case6 c d rest hne hescape ih =>
    rw [← ih, written]
    split
    · rename_i hp
      rw [closes_surrogate hp.1.surrogate, closes_surrogate hp.2.surrogate, written_cons hp.2.not_high,
        closes_plain hp.2.surrogate]
    · by_cases hs : c.IsSurrogate
      · exact closes_plain hs _
      · rw [CodeUnit.plain_of_not hs, closes_cons hne hescape]

theorem Quoted.written {s : List CodeUnit} (h : Quoted s) : Quoted (written s) := by
  obtain ⟨body, rfl, hbody⟩ := h
  refine ⟨GManager.written body, written_cons_of_not (by decide) body, ?_⟩
  rw [closes_written, hbody]
  rfl

/-! ## What a text starts with -/

inductive Kind where
  | null
  | bool (value : Bool)
  | number
  | text
  | array
  | object
deriving DecidableEq

def kind : Json Text → Kind
  | .null => .null
  | .bool value => .bool value
  | .number _ => .number
  | .text _ => .text
  | .array _ => .array
  | .object _ => .object

def opened (c : CodeUnit) : Kind :=
  if c = unit 'n' then .null
  else if c = unit 't' then .bool true
  else if c = unit 'f' then .bool false
  else if c = unit '"' then .text
  else if c = unit '[' then .array
  else if c = unit '\x7b' then .object
  else .number

/-- The code units of plain notation. -/
def IsNumeric (c : CodeUnit) : Prop := (48 ≤ c.toNat ∧ c.toNat ≤ 57) ∨ c = unit '-' ∨ c = unit '.'

instance : DecidablePred IsNumeric := fun _ => inferInstanceAs (Decidable (_ ∨ _))

theorem unit_numeric {c : Char} (hc : BigDecimal.IsNumeric c) : c.toNat < 128 ∧ IsNumeric (unit c) := by
  rcases hc with hc | rfl | rfl
  · rw [Char.isDigit_iff_toNat] at hc
    have hlow : 48 ≤ c.toNat := hc.1
    have hhigh : c.toNat ≤ 57 := hc.2
    have hunit : (unit c).toNat = c.toNat := by
      rw [unit, UInt32.toNat_toUInt16, Char.toNat_val]
      omega
    exact ⟨by omega, .inl ⟨by omega, by omega⟩⟩
  · decide
  · decide

theorem plain_numeric (value : BigDecimal) : ∀ c ∈ value.plain.map unit, IsNumeric c := by
  intro c hc
  obtain ⟨d, hd, rfl⟩ := List.mem_map.1 hc
  exact (unit_numeric (value.plain_numeric d hd)).2

theorem plain_units_iff {m n : BigDecimal} : m.plain.map unit = n.plain.map unit ↔ m.value = n.value := by
  have hlt : ∀ d : BigDecimal, ∀ c ∈ d.plain, c.toNat < 65536 := fun d c hc =>
    (unit_numeric (d.plain_numeric c hc)).1.trans (by decide)
  rw [← BigDecimal.plain_eq_iff]
  exact ⟨map_unit_inj (hlt m) (hlt n), congrArg _⟩

theorem opened_numeric {c : CodeUnit} (hc : IsNumeric c) : opened c = .number ∧ c ≠ unit ']' := by
  have hne : ∀ d : CodeUnit, ¬ IsNumeric d → c ≠ d := fun d hd h => hd (h ▸ hc)
  unfold opened
  rw [if_neg (hne _ (by decide)), if_neg (hne _ (by decide)), if_neg (hne _ (by decide)),
    if_neg (hne _ (by decide)), if_neg (hne _ (by decide)), if_neg (hne _ (by decide))]
  exact ⟨rfl, hne _ (by decide)⟩

theorem canonical_opened (hquoted : ∀ s, Quoted (jsonString s)) (t : Json Text) :
    ∃ c s, canonical jsonString t = c :: s ∧ opened c = kind t ∧ c ≠ unit ']' := by
  cases t with
  | null => exact ⟨_, _, by rw [canonical]; rfl, rfl, by decide⟩
  | bool value =>
    cases value with
    | false => exact ⟨unit 'f', units "alse", by rw [canonical]; rfl, rfl, by decide⟩
    | true => exact ⟨unit 't', units "rue", by rw [canonical]; rfl, rfl, by decide⟩
  | number value =>
    obtain ⟨c, s, hcs⟩ := List.exists_cons_of_ne_nil (mt List.map_eq_nil_iff.1 value.plain_ne_nil)
    have hc := opened_numeric (plain_numeric value c (by rw [hcs]; exact List.mem_cons_self))
    exact ⟨c, s, by rw [canonical, hcs], hc⟩
  | text value =>
    obtain ⟨body, hbody, _⟩ := hquoted value
    exact ⟨_, _, by rw [canonical, hbody], rfl, by decide⟩
  | array items => exact ⟨_, _, by rw [canonical], rfl, by decide⟩
  | object members => exact ⟨_, _, by rw [canonical], rfl, by decide⟩

theorem kind_eq (hquoted : ∀ s, Quoted (jsonString s)) {t u : Json Text} {rest rest' : List CodeUnit}
    (h : canonical jsonString t ++ rest = canonical jsonString u ++ rest') : kind t = kind u := by
  obtain ⟨c, s, ht, hc, _⟩ := canonical_opened jsonString hquoted t
  obtain ⟨c', s', hu, hc', _⟩ := canonical_opened jsonString hquoted u
  rw [ht, hu, List.cons_append, List.cons_append, List.cons.injEq] at h
  rw [← hc, ← hc', h.1]

theorem canonicalItems_eq (items : List (Json Text)) :
    canonicalItems jsonString items = items.map (canonical jsonString) := by
  induction items with
  | nil => simp [canonicalItems]
  | cons t items ih => simp [canonicalItems, ih]

theorem canonicalMembers_eq (members : List (Text × Json Text)) :
    canonicalMembers jsonString members = members.map fun m => (m.1, canonical jsonString m.2) := by
  induction members with
  | nil => simp [canonicalMembers]
  | cons m members ih => simp [canonicalMembers, ih]

/-- A member as it is printed, with its tree. -/
def printed (m : Text × Json Text) : List CodeUnit := member jsonString (m.1, canonical jsonString m.2)

theorem sorted_members (members : List (Text × Json Text)) :
    (sorted (canonicalMembers jsonString members)).map (member jsonString) =
      (sorted members).map (printed jsonString) := by
  have h := List.map_insertionSort (fun m n : Text × Json Text => m.1 ≤ n.1)
    (fun m n : Text × List CodeUnit => m.1 ≤ n.1) (fun m => (m.1, canonical jsonString m.2)) members
    (fun _ _ _ _ => Iff.rfl)
  rw [canonicalMembers_eq, sorted, ← h, List.map_map]
  rfl

theorem mem_sorted {α : Type*} {m : Text × α} {members : List (Text × α)} :
    m ∈ sorted members ↔ m ∈ members := (List.perm_insertionSort _ members).mem_iff

@[simp] theorem length_sorted {α : Type*} (members : List (Text × α)) :
    (sorted members).length = members.length :=
  List.length_insertionSort _ members

theorem canonical_array (items : List (Json Text)) :
    canonical jsonString (.array items) = unit '[' ::
    (joined (items.map (canonical jsonString)) ++ [unit ']']) := by
  rw [canonical, canonicalItems_eq]

theorem canonical_object (members : List (Text × Json Text)) :
    canonical jsonString (.object members) =
      unit '\x7b' :: (joined ((sorted members).map (printed jsonString)) ++ [unit '\x7d']) := by
  rw [canonical, sorted_members]

/-! ## Reading a canonical text -/

/-- Two lists agree place by place. -/
theorem forall₂_iff_getElem? {α : Type*} {R : α → α → Prop} {xs ys : List α} :
    List.Forall₂ R xs ys ↔ xs.length = ys.length ∧ ∀ (i : ℕ) x y, xs[i]? = some x →
    ys[i]? = some y → R x y := by
  rw [List.forall₂_iff_get]
  refine and_congr_right fun _ => ⟨fun h i x y hx hy => ?_, fun h i hi hi' => ?_⟩
  · obtain ⟨hi, rfl⟩ := List.getElem?_eq_some_iff.1 hx
    obtain ⟨hi', rfl⟩ := List.getElem?_eq_some_iff.1 hy
    exact h i hi hi'
  · exact h i _ _ (List.getElem?_eq_getElem hi) (List.getElem?_eq_getElem hi')

def AlikeMember (m n : Text × Json Text) : Prop := jsonString m.1 = jsonString n.1 ∧ Alike jsonString m.2 n.2

theorem Alike.of_items {xs ys : List (Json Text)} (h : List.Forall₂ (Alike jsonString) xs ys) :
    Alike jsonString (.array xs) (.array ys) := by
  obtain ⟨hlength, hitems⟩ := forall₂_iff_getElem?.1 h
  exact .array hlength hitems

theorem Alike.of_sorted {ms ns : List (Text × Json Text)}
    (h : List.Forall₂ (AlikeMember jsonString) (sorted ms) (sorted ns)) :
    Alike jsonString (.object ms) (.object ns) := by
  obtain ⟨hlength, hmembers⟩ := forall₂_iff_getElem?.1 h
  refine .object (by simpa using hlength) (fun i m n hm hn => ?_) fun i m n hm hn => ?_
  · exact (hmembers i m n hm hn).1
  · exact (hmembers i m n hm hn).2

theorem Cuts.printed (hquoted : ∀ s, Quoted (jsonString s)) {m : Text × Json Text}
    (hm : Cuts IsNumeric (canonical jsonString) (Alike jsonString) (fun _ => True) m.2) :
    Cuts IsNumeric (printed jsonString) (AlikeMember jsonString) (fun _ => True) m := by
  intro n rest rest' _ hr hr' h
  simp only [CanonicalRequestHasher.printed, member, List.append_assoc, List.cons_append] at h
  obtain ⟨hname, h⟩ := (hquoted m.1).append (hquoted n.1) h
  obtain ⟨halike, hrest⟩ := hm n.2 rest rest' trivial hr hr' (List.cons.inj h).2
  exact ⟨⟨hname, halike⟩, hrest⟩

/-- A canonical text read off the front of a stream tells the tree, up to `Alike`. -/
theorem canonical_cuts (hquoted : ∀ s, Quoted (jsonString s)) {t : Json Text} (ht : t.Distinct) :
    Cuts IsNumeric (canonical jsonString) (Alike jsonString) (fun _ => True) t := by
  induction ht with
  | null =>
    intro u rest rest' _ hr hr' h
    cases u <;> cases kind_eq jsonString hquoted h
    exact ⟨.null, by simpa [canonical] using h⟩
  | bool value =>
    intro u rest rest' _ hr hr' h
    cases u <;> cases kind_eq jsonString hquoted h
    exact ⟨.bool value, List.append_cancel_left h⟩
  | number value =>
    intro u rest rest' _ hr hr' h
    cases u <;> cases kind_eq jsonString hquoted h
    next value' =>
    rw [canonical, canonical] at h
    obtain ⟨hplain, hrest⟩ := Ends.word (plain_numeric value) (plain_numeric value') hr hr' h
    exact ⟨.number (plain_units_iff.1 hplain), hrest⟩
  | text value =>
    intro u rest rest' _ hr hr' h
    cases u <;> cases kind_eq jsonString hquoted h
    next value' =>
    rw [canonical, canonical] at h
    obtain ⟨htext, hrest⟩ := (hquoted value).append (hquoted value') h
    exact ⟨.text htext, hrest⟩
  | @array xs hxs ih =>
    intro u rest rest' _ hr hr' h
    cases u <;> cases kind_eq jsonString hquoted h
    next ys =>
    rw [canonical_array, canonical_array] at h
    simp only [List.cons_append, List.append_assoc, List.cons.injEq, true_and, List.nil_append] at h
    obtain ⟨hall, hrest⟩ := Cuts.intercalate (by decide) (by decide) (by decide) (fun y _ => by
        obtain ⟨c, s, hc, _, hne⟩ := canonical_opened jsonString hquoted y
        exact ⟨c, s, hc, hne⟩) ih (fun _ _ => trivial) (fun _ _ => trivial) h
    exact ⟨Alike.of_items jsonString hall, hrest⟩
  | @object ms hms hmembers ih =>
    intro u rest rest' _ hr hr' h
    cases u <;> cases kind_eq jsonString hquoted h
    next ns =>
    rw [canonical_object, canonical_object] at h
    simp only [List.cons_append, List.append_assoc, List.cons.injEq, true_and, List.nil_append] at h
    obtain ⟨hall, hrest⟩ := Cuts.intercalate (by decide) (by decide) (by decide) (fun n _ => by
        obtain ⟨body, hbody, _⟩ := hquoted n.1
        exact ⟨unit '"', _, by rw [printed, member, hbody]; rfl, by decide⟩)
      (fun m hm => Cuts.printed jsonString hquoted (ih m (mem_sorted.1 hm))) (fun _ _ => trivial)
        (fun _ _ => trivial) h
    exact ⟨Alike.of_sorted jsonString hall, hrest⟩

theorem map_eq_map {α β : Type*} {f : α → β} {xs ys : List α} (hlength : xs.length = ys.length)
    (h : ∀ (i : ℕ) x y, xs[i]? = some x → ys[i]? = some y → f x = f y) : xs.map f = ys.map f := by
  rw [← List.forall₂_eq_eq_eq, List.forall₂_map_left_iff, List.forall₂_map_right_iff]
  exact forall₂_iff_getElem?.2 ⟨hlength, h⟩

/-- Members that agree one by one in the order of their names make the same objects. -/
theorem Same.of_sorted {ms ns : List (Text × Json Text)} (hns : (ns.map Prod.fst).Nodup)
    (h : List.Forall₂ (fun m n => m.1 = n.1 ∧ m.2.Same n.2) (sorted ms) (sorted ns)) :
    (Json.object ms).Same (.object ns) := by
  refine .object (fun name => ?_) fun name x y hx hy => ?_
  · have hnames : (sorted ms).map Prod.fst = (sorted ns).map Prod.fst := by
      rw [← List.forall₂_eq_eq_eq, List.forall₂_map_left_iff, List.forall₂_map_right_iff]
      exact h.imp fun _ _ h => h.1
    have hm := (List.perm_insertionSort (fun m n => m.1 ≤ n.1) ms).map Prod.fst
    have hn := (List.perm_insertionSort (fun m n => m.1 ≤ n.1) ns).map Prod.fst
    rw [← hm.mem_iff, ← hn.mem_iff]
    exact (congrArg (name ∈ ·) hnames).to_iff
  · obtain ⟨n, hn, hname, hsame⟩ := forall₂_exists h (mem_sorted.2 hx)
    obtain ⟨name', y'⟩ := n
    cases hname
    rw [Json.nodup_unique hns hy (mem_sorted.1 hn)]
    exact hsame

/-- Alike trees have one canonical text. -/
theorem canonical_of_alike {t u : Json Text} (h : Alike jsonString t u) :
    canonical jsonString t = canonical jsonString u := by
  induction h with
  | null => rfl
  | bool value => rfl
  | number hvalue => rw [canonical, canonical, plain_units_iff.2 hvalue]
  | text htext => rw [canonical, canonical, htext]
  | array hlength _ ih => rw [canonical_array, canonical_array, map_eq_map hlength ih]
  | object hlength hnames _ ih =>
    have hprinted : ∀ (i : ℕ) m n, (sorted _)[i]? = some m → (sorted _)[i]? = some n →
        printed jsonString m = printed jsonString n := fun i m n hm hn => by
      rw [printed, printed, member, member, hnames i m n hm hn, ih i m n hm hn]
    rw [canonical_object, canonical_object, map_eq_map (by simpa using hlength) hprinted]

theorem canonical_eq_iff (hquoted : ∀ s, Quoted (jsonString s)) {t u : Json Text} (ht : t.Distinct) :
    canonical jsonString t = canonical jsonString u ↔ Alike jsonString t u := by
  refine ⟨fun h => ?_, canonical_of_alike jsonString⟩
  have happend : canonical jsonString t ++ [] = canonical jsonString u ++ [] := by rw [h]
  exact (canonical_cuts jsonString hquoted ht u [] [] trivial Ends.nil Ends.nil happend).1

/-! ## The same request has one canonical text -/

theorem sorted_pairwise {α : Type*} (members : List (Text × α)) :
    (sorted members).Pairwise fun m n => m.1 ≤ n.1 :=
  have : Std.Total fun m n : Text × α => m.1 ≤ n.1 := ⟨fun m n => le_total m.1 n.1⟩
  have : IsTrans (Text × α) fun m n => m.1 ≤ n.1 := ⟨fun _ _ _ => le_trans⟩
  List.pairwise_insertionSort _ members

/-- Members under distinct names are sorted in one way only. -/
theorem sorted_eq {α : Type*} {ms ns : List (Text × α)} (hms : (ms.map Prod.fst).Nodup)
    (h : ms.Perm ns) : sorted ms = sorted ns := by
  have hperm : (sorted ms).Perm (sorted ns) :=
    ((List.perm_insertionSort _ ms).trans h).trans (List.perm_insertionSort _ ns).symm
  refine hperm.eq_of_pairwise (fun m n hm hn hmn hnm => ?_) (sorted_pairwise ms) (sorted_pairwise ns)
  exact List.inj_on_of_nodup_map hms (mem_sorted.1 hm) (h.symm.subset (mem_sorted.1 hn)) (le_antisymm hmn hnm)

theorem canonical_of_same {t u : Json Text} (h : t.Same u) (ht : t.Distinct) (hu : u.Distinct) :
    canonical jsonString t = canonical jsonString u := by
  induction h with
  | null => rfl
  | bool value => rfl
  | number hvalue => rw [canonical, canonical, plain_units_iff.2 hvalue]
  | text value => rfl
  | @array xs ys hlength hitems ih =>
    cases ht with | array hxs =>
    cases hu with | array hys =>
    rw [canonical_array, canonical_array, map_eq_map hlength fun i x y hx hy => ?_]
    exact ih i x y hx hy (hxs x (List.mem_of_getElem? hx)) (hys y (List.mem_of_getElem? hy))
  | @object ms ns hnames hmembers ih =>
    cases ht with | object hms hms' =>
    cases hu with | object hns hns' =>
    have hfst : ∀ ms : List (Text × Json Text),
        (canonicalMembers jsonString ms).map Prod.fst = ms.map Prod.fst := by
      intro ms
      rw [canonicalMembers_eq, List.map_map]
      rfl
    have hmem : ∀ m, m ∈ canonicalMembers jsonString ms ↔ m ∈ canonicalMembers jsonString ns := by
      rintro ⟨name, text⟩
      simp only [canonicalMembers_eq, List.mem_map, Prod.exists, Prod.mk.injEq]
      constructor
      · rintro ⟨name, x, hx, rfl, rfl⟩
        obtain ⟨⟨_, y⟩, hy, rfl⟩ := List.mem_map.1 ((hnames name).1 (List.mem_map_of_mem hx))
        exact ⟨_, y, hy, rfl, (ih _ x y hx hy (hms' _ hx) (hns' _ hy)).symm⟩
      · rintro ⟨name, y, hy, rfl, rfl⟩
        obtain ⟨⟨_, x⟩, hx, rfl⟩ := List.mem_map.1 ((hnames name).2 (List.mem_map_of_mem hy))
        exact ⟨_, x, hx, rfl, ih _ x y hx hy (hms' _ hx) (hns' _ hy)⟩
    have hperm : (canonicalMembers jsonString ms).Perm (canonicalMembers jsonString ns) :=
      (List.perm_ext_iff_of_nodup (.of_map Prod.fst (hfst ms ▸ hms)) (.of_map Prod.fst (hfst ns ▸ hns))).2
        hmem
    rw [canonical, canonical, sorted_eq (hfst ms ▸ hms) hperm]

/-- Trees that are alike and whose quoted texts differ when the texts do are the same request. -/
theorem Alike.same {t u : Json Text} (h : Alike jsonString t u) (hinj : Function.Injective jsonString)
    (ht : t.Distinct) (hu : u.Distinct) : t.Same u := by
  induction h with
  | null => exact .null
  | bool value => exact .bool value
  | number hvalue => exact .number hvalue
  | text htext =>
    rw [hinj htext]
    exact .text _
  | @array xs ys hlength _ ih =>
    cases ht with | array hxs =>
    cases hu with | array hys =>
    refine .array hlength fun i x y hx hy => ?_
    exact ih i x y hx hy (hxs x (List.mem_of_getElem? hx)) (hys y (List.mem_of_getElem? hy))
  | @object ms ns hlength hnames _ ih =>
    cases ht with | object _ hms =>
    cases hu with | object hns hns' =>
    have hsorted : List.Forall₂ (fun m n => m.1 = n.1 ∧ m.2.Same n.2) (sorted ms) (sorted ns) := by
      refine forall₂_iff_getElem?.2 ⟨by simpa using hlength, fun i m n hm hn =>
        ⟨hinj (hnames i m n hm hn), ?_⟩⟩
      exact ih i m n hm hn (hms m (mem_sorted.1 (List.mem_of_getElem? hm)))
        (hns' n (mem_sorted.1 (List.mem_of_getElem? hn)))
    exact Same.of_sorted hns hsorted

/-! ## The bytes of a canonical text -/

/-- The texts as `getBytes` leaves them. -/
def kept (s : Text) : List CodeUnit := written (jsonString s)

theorem written_flatMap {close : CodeUnit} (hclose : ¬ close.IsSurrogate) (texts : List (List CodeUnit)) :
    written (texts.flatMap (unit ',' :: ·) ++ [close]) =
    (texts.map written).flatMap (unit ',' :: ·) ++ [close] := by
  have hcomma : ¬ (unit ',').IsSurrogate := by decide
  induction texts with
  | nil => exact written_cons_of_not hclose []
  | cons s texts ih =>
    have hhead : ∀ c ∈ (texts.flatMap (unit ',' :: ·) ++ [close]).head?, ¬ c.IsLow := by
      cases texts with
      | nil =>
        rintro c ⟨⟩ hc
        exact hclose hc.surrogate
      | cons s' texts =>
        rintro c ⟨⟩ hc
        exact hcomma hc.surrogate
    simp only [List.flatMap_cons, List.map_cons, List.cons_append, List.append_assoc]
    rw [written_cons_of_not hcomma, written_append hhead, ih]

theorem written_joined {close : CodeUnit} (hclose : ¬ close.IsSurrogate) (texts : List (List CodeUnit)) :
    written (joined texts ++ [close]) = joined (texts.map written) ++ [close] := by
  cases texts with
  | nil => exact written_cons_of_not hclose []
  | cons s texts =>
    have hhead : ∀ c ∈ (texts.flatMap (unit ',' :: ·) ++ [close]).head?, ¬ c.IsLow := by
      cases texts with
      | nil =>
        rintro c ⟨⟩ hc
        exact hclose hc.surrogate
      | cons s' texts =>
        rintro c ⟨⟩ hc
        exact absurd hc.surrogate (by decide)
    unfold joined
    rw [List.map_cons, intercalate_cons, intercalate_cons, List.append_assoc, List.append_assoc,
      written_append hhead, written_flatMap hclose]

/-- The question marks stand in the quoted strings only. -/
theorem written_canonical {t : Json Text} (ht : t.Distinct) :
    written (canonical jsonString t) = canonical (kept jsonString) t := by
  induction ht with
  | null => rfl
  | bool value => cases value <;> rfl
  | number value =>
    rw [canonical, canonical]
    refine written_of_plain fun c hc => ?_
    rcases plain_numeric value c hc with ⟨-, hc⟩ | rfl | rfl
    · exact fun h => absurd h.1 (by omega)
    · decide
    · decide
  | text value => rw [canonical, canonical, kept]
  | @array items _ ih =>
    have hmap : (items.map (canonical jsonString)).map written = items.map (canonical (kept jsonString)) := by
      rw [List.map_map]
      exact List.map_congr_left ih
    rw [canonical_array, canonical_array, written_cons_of_not (by decide), written_joined (by decide), hmap]
  | @object members _ _ ih =>
    have hmap : ((sorted members).map (printed jsonString)).map written = (sorted members).map
        (printed (kept jsonString)) := by
      rw [List.map_map]
      refine List.map_congr_left fun m hm => ?_
      have hcolon : ¬ (unit ':').IsSurrogate := by decide
      rw [Function.comp_apply, printed, printed, member, member, written_append, written_cons_of_not hcolon,
        ih m (mem_sorted.1 hm), kept]
      rintro c ⟨⟩ hc
      exact hcolon hc.surrogate
    rw [canonical_object, canonical_object, written_cons_of_not (by decide), written_joined (by decide), hmap]

/-- No surrogate of the quoted text stands alone. -/
def Paired (s : Text) : Prop := kept jsonString s = jsonString s

theorem Alike.of_paired {t u : Json Text} (h : Alike (kept jsonString) t u) (ht : t.All (Paired jsonString))
    (hu : u.All (Paired jsonString)) : Alike jsonString t u := by
  induction h with
  | null => exact .null
  | bool value => exact .bool value
  | number hvalue => exact .number hvalue
  | text htext =>
    cases ht with | text ht =>
    cases hu with | text hu =>
    exact .text (ht.symm.trans (htext.trans hu))
  | array hlength _ ih =>
    cases ht with | array hxs =>
    cases hu with | array hys =>
    refine .array hlength fun i x y hx hy => ?_
    exact ih i x y hx hy (hxs x (List.mem_of_getElem? hx)) (hys y (List.mem_of_getElem? hy))
  | object hlength hnames _ ih =>
    cases ht with | object hms hms' =>
    cases hu with | object hns hns' =>
    refine .object hlength (fun i m n hm hn => ?_) fun i m n hm hn => ?_
    · have hm' := hms m (mem_sorted.1 (List.mem_of_getElem? hm))
      have hn' := hns n (mem_sorted.1 (List.mem_of_getElem? hn))
      exact hm'.symm.trans ((hnames i m n hm hn).trans hn')
    · exact ih i m n hm hn (hms' m (mem_sorted.1 (List.mem_of_getElem? hm)))
        (hns' n (mem_sorted.1 (List.mem_of_getElem? hn)))

/-! ## Hashing -/

/-- `HexFormat.of().formatHex`. -/
def hexDigits (byte : UInt8) : List Char := [Nat.digitChar (byte.toNat / 16), Nat.digitChar (byte.toNat % 16)]

def formatHex (bytes : List UInt8) : List Char := bytes.flatMap hexDigits

/-- The bytes that are digested for a tree. -/
def digested (t : Json Text) : ByteArray := getBytes (canonical jsonString t)

section

variable {IOException : Type} (readTree : ByteArray → Except IOException (Json Text))
  (digest : ByteArray → List UInt8)

def hash (body : ByteArray) : Except IOException (List Char) := do
  let root ← readTree body
  return formatHex (digest (digested jsonString root))

theorem digitChar_inj : ∀ i < 16, ∀ j < 16, Nat.digitChar i = Nat.digitChar j → i = j := by decide

theorem hexDigits_inj (a b : UInt8) (h : hexDigits a = hexDigits b) : a = b := by
  have ha : a.toNat < 256 := a.toNat_lt
  have hb : b.toNat < 256 := b.toNat_lt
  simp only [hexDigits, List.cons.injEq, and_true] at h
  have hhigh := digitChar_inj _ (by omega) _ (by omega) h.1
  have hlow := digitChar_inj _ (by omega) _ (by omega) h.2
  exact UInt8.toNat_inj.1 (by omega)

theorem formatHex_inj {xs ys : List UInt8} (h : formatHex xs = formatHex ys) : xs = ys := by
  induction xs generalizing ys with
  | nil =>
    cases ys with
    | nil => rfl
    | cons y ys => cases h
  | cons x xs ih =>
    cases ys with
    | nil => cases h
    | cons y ys =>
      simp only [formatHex, List.flatMap_cons] at h
      obtain ⟨hx, hxs⟩ := List.append_inj h rfl
      rw [hexDigits_inj x y hx, ih hxs]

theorem digested_eq_iff (hquoted : ∀ s, Quoted (jsonString s)) {t u : Json Text} (ht : t.Distinct)
    (hu : u.Distinct) : digested jsonString t = digested jsonString u ↔ Alike (kept jsonString) t u := by
  rw [digested, digested, getBytes_eq_iff, written_canonical jsonString ht, written_canonical jsonString hu,
    canonical_eq_iff (kept jsonString) (fun s => (hquoted s).written) ht]

theorem hash_eq {body : ByteArray} {t : Json Text} (h : readTree body = .ok t) :
    hash jsonString readTree digest body = .ok (formatHex (digest (digested jsonString t))) := by
  rw [hash, h]
  rfl

end

/-- Two trees have one canonical text exactly when they are the same request. Two bodies have one hash,
where the digest does not collide on their texts, exactly when their trees are alike with question marks for
the surrogates that stand alone: so the hash tells requests apart as the text does unless they are alike and
not the same, and where no surrogate stands alone it always does. -/
theorem canonical_hashing {Text : Type} [LinearOrder Text] (jsonString : Text → List CodeUnit)
    (hinj : Function.Injective jsonString) (hquoted : ∀ s, Quoted (jsonString s)) :
    (∀ t u : Json Text, t.Distinct → u.Distinct →
      (canonical jsonString t = canonical jsonString u ↔ t.Same u)) ∧
    ∀ (IOException : Type) (readTree : ByteArray → Except IOException (Json Text))
      (digest : ByteArray → List UInt8) (body body' : ByteArray) (t u : Json Text),
      readTree body = .ok t → readTree body' = .ok u → t.Distinct → u.Distinct →
      (digest (digested jsonString t) = digest (digested jsonString u) →
        digested jsonString t = digested jsonString u) →
      ((hash jsonString readTree digest body = hash jsonString readTree digest body' ↔ t.Same u) ↔
        (Alike (kept jsonString) t u → t.Same u)) ∧
      (t.All (Paired jsonString) → u.All (Paired jsonString) →
        (hash jsonString readTree digest body = hash jsonString readTree digest body' ↔ t.Same u)) := by
  have hcanonical : ∀ t u : Json Text, t.Distinct → u.Distinct →
      (canonical jsonString t = canonical jsonString u ↔ t.Same u) := by
    intro t u ht hu
    constructor
    · intro h
      exact ((canonical_eq_iff jsonString hquoted ht).1 h).same jsonString hinj ht hu
    · exact fun h => canonical_of_same jsonString h ht hu
  refine ⟨hcanonical, fun IOException readTree digest body body' t u hbody hbody' ht hu hcollision => ?_⟩
  have hhash : hash jsonString readTree digest body = hash jsonString readTree digest body' ↔
      Alike (kept jsonString) t u := by
    rw [hash_eq jsonString readTree digest hbody, hash_eq jsonString readTree digest hbody', Except.ok.injEq,
      ← digested_eq_iff jsonString hquoted ht hu]
    exact ⟨fun h => hcollision (formatHex_inj h), fun h => by rw [h]⟩
  have hsame : t.Same u → Alike (kept jsonString) t u := by
    intro h
    rw [← digested_eq_iff jsonString hquoted ht hu, digested, digested, canonical_of_same jsonString h ht hu]
  refine ⟨⟨fun h halike => h.1 (hhash.2 halike), fun h =>
    ⟨fun heq => h (hhash.1 heq), fun h => hhash.2 (hsame h)⟩⟩, ?_⟩
  intro hpt hpu
  refine ⟨fun heq => ?_, fun h => hhash.2 (hsame h)⟩
  exact ((hhash.1 heq).of_paired jsonString hpt hpu).same jsonString hinj ht hu

/-! ## Two notations of one body, and two bodies -/

namespace Notation

def escape (c : CodeUnit) : List CodeUnit := if c = unit '"' ∨ c = unit '\\' then [unit '\\', c] else [c]

def writeValueAsString (s : List CodeUnit) : List CodeUnit := unit '"' :: (s.flatMap escape ++ [unit '"'])

theorem closes_escape (c : CodeUnit) (rest : List CodeUnit) : closes (escape c ++ rest) = closes rest := by
  unfold escape
  split
  · rfl
  · next h => exact closes_cons (fun hc => h (.inl hc)) (fun hc => h (.inr hc)) rest

theorem writeValueAsString_quoted (s : List CodeUnit) : Quoted (writeValueAsString s) := by
  refine ⟨_, rfl, ?_⟩
  induction s with
  | nil => rfl
  | cons c cs ih => rw [List.flatMap_cons, List.append_assoc, closes_escape, ih]

theorem escape_append {c c' : CodeUnit} {rest rest' : List CodeUnit}
    (h : escape c ++ rest = escape c' ++ rest') : c = c' ∧ rest = rest' := by
  unfold escape at h
  split_ifs at h with h1 h2 h2
  · simpa using h
  · simp only [List.cons_append, List.cons.injEq, List.nil_append] at h
    exact absurd (.inr h.1.symm) h2
  · simp only [List.cons_append, List.cons.injEq, List.nil_append] at h
    exact absurd (.inr h.1) h1
  · simpa using h

theorem escaped_inj {cs cs' : List CodeUnit} (h : cs.flatMap escape = cs'.flatMap escape) : cs = cs' := by
  have hne : ∀ c, escape c ≠ [] := by
    intro c
    unfold escape
    split <;> simp
  induction cs generalizing cs' with
  | nil =>
    cases cs' with
    | nil => rfl
    | cons c' cs' => simp [hne] at h
  | cons c cs ih =>
    cases cs' with
    | nil => simp [hne] at h
    | cons c' cs' =>
      rw [List.flatMap_cons, List.flatMap_cons] at h
      obtain ⟨hc, hcs⟩ := escape_append h
      rw [hc, ih hcs]

theorem writeValueAsString_inj : Function.Injective writeValueAsString := by
  intro s s' h
  simp only [writeValueAsString, List.cons.injEq, true_and] at h
  exact escaped_inj (List.append_cancel_right h)

def first : ByteArray := "\x7b\"name\": \"a\", \"amount\": 1.0\x7d".toUTF8

def second : ByteArray := "\x7b\"amount\":1,\"name\":\"a\"\x7d".toUTF8

/-- A surrogate that stands alone, spelled in JSON. -/
def lone : ByteArray := "\x7b\"note\":\"\\ud800\"\x7d".toUTF8

def asked : ByteArray := "\x7b\"note\":\"?\"\x7d".toUTF8

def firstTree : Json (List CodeUnit) :=
  .object [(units "name", .text (units "a")), (units "amount", .number ⟨10, 1⟩)]

def secondTree : Json (List CodeUnit) :=
  .object [(units "amount", .number ⟨1, 0⟩), (units "name", .text (units "a"))]

def loneTree : Json (List CodeUnit) := .object [(units "note", .text [0xD800])]

def askedTree : Json (List CodeUnit) := .object [(units "note", .text (units "?"))]

def readTree (body : ByteArray) : Except Unit (Json (List CodeUnit)) :=
  if body.data = first.data then .ok firstTree
  else if body.data = second.data then .ok secondTree
  else if body.data = lone.data then .ok loneTree
  else if body.data = asked.data then .ok askedTree
  else .error ()

/-- SHA-256 on the canonical texts of these bodies, and any other bytes as they are. -/
def sha256 (bytes : ByteArray) : List UInt8 :=
  if bytes.data = second.data then
    [135, 21, 172, 51, 185, 76, 91, 170, 173, 107, 196, 250, 231, 191, 187, 217, 181, 90, 165, 5,
      144, 87, 129, 103, 11, 105, 20, 168, 255, 112, 55, 105]
  else if bytes.data = asked.data then
    [115, 157, 181, 31, 131, 216, 121, 104, 108, 197, 3, 254, 97, 212, 55, 40, 227, 15,
      168, 100, 41, 66, 1, 17, 27, 168, 74, 82, 185, 210, 66, 116]
  else bytes.data.toList

theorem firstTree_distinct : firstTree.Distinct := by
  refine .object (by decide) fun m hm => ?_
  simp only [List.mem_cons, List.not_mem_nil, or_false] at hm
  rcases hm with rfl | rfl
  · exact .text (units "a")
  · exact .number ⟨10, 1⟩

theorem secondTree_distinct : secondTree.Distinct := by
  refine .object (by decide) fun m hm => ?_
  simp only [List.mem_cons, List.not_mem_nil, or_false] at hm
  rcases hm with rfl | rfl
  · exact .number ⟨1, 0⟩
  · exact .text (units "a")

theorem trees_same : firstTree.Same secondTree := by
  refine .object (by simp [or_comm]) fun name x y hx hy => ?_
  simp only [List.mem_cons, List.not_mem_nil, or_false, Prod.mk.injEq] at hx hy
  rcases hx with ⟨rfl, rfl⟩ | ⟨rfl, rfl⟩ <;> rcases hy with ⟨h, rfl⟩ | ⟨h, rfl⟩
  · exact absurd h (by decide)
  · exact .text (units "a")
  · exact .number (by norm_num [BigDecimal.value])
  · exact absurd h (by decide)

theorem firstTree_paired : firstTree.All (Paired writeValueAsString) := by
  refine .object (fun m hm => ?_) fun m hm => ?_
  · simp only [List.mem_cons, List.not_mem_nil, or_false] at hm
    rcases hm with rfl | rfl
    · rfl
    · rfl
  · simp only [List.mem_cons, List.not_mem_nil, or_false] at hm
    rcases hm with rfl | rfl
    · exact .text rfl
    · exact .number ⟨10, 1⟩

theorem secondTree_paired : secondTree.All (Paired writeValueAsString) := by
  refine .object (fun m hm => ?_) fun m hm => ?_
  · simp only [List.mem_cons, List.not_mem_nil, or_false] at hm
    rcases hm with rfl | rfl
    · rfl
    · rfl
  · simp only [List.mem_cons, List.not_mem_nil, or_false] at hm
    rcases hm with rfl | rfl
    · exact .number ⟨1, 0⟩
    · exact .text rfl

theorem second_ne_first : second.data ≠ first.data := by decide +kernel

theorem canonical_hashing_notation :
    hash writeValueAsString readTree sha256 first = hash writeValueAsString readTree sha256 second ↔
      firstTree.Same secondTree :=
  ((canonical_hashing writeValueAsString writeValueAsString_inj writeValueAsString_quoted).2 Unit readTree
    sha256 first second firstTree secondTree (by simp [readTree]) (by simp [readTree, second_ne_first])
    firstTree_distinct secondTree_distinct fun _ => by
      rw [digested, digested, canonical_of_same writeValueAsString trees_same firstTree_distinct
        secondTree_distinct]).2 firstTree_paired secondTree_paired

theorem note_distinct (text : List CodeUnit) : (Json.object [(units "note", .text text)]).Distinct := by
  refine .object (by simp) fun m hm => ?_
  obtain rfl := List.mem_singleton.1 hm
  exact .text text

theorem readTree_lone : readTree lone = .ok loneTree := by
  have hfirst : lone.data ≠ first.data := by decide +kernel
  have hsecond : lone.data ≠ second.data := by decide +kernel
  simp [readTree, hfirst, hsecond]

theorem readTree_asked : readTree asked = .ok askedTree := by
  have hfirst : asked.data ≠ first.data := by decide +kernel
  have hsecond : asked.data ≠ second.data := by decide +kernel
  have hlone : asked.data ≠ lone.data := by decide +kernel
  simp [readTree, hfirst, hsecond, hlone]

/-- Two bodies that are not the same request have one hash. -/
theorem surrogate_collides :
    readTree lone = .ok loneTree ∧ readTree asked = .ok askedTree ∧ loneTree.Distinct ∧ askedTree.Distinct ∧
      hash writeValueAsString readTree sha256 lone = hash writeValueAsString readTree sha256 asked ∧
      ¬ loneTree.Same askedTree := by
  have halike : Alike (kept writeValueAsString) loneTree askedTree := by
    refine .object rfl (fun i m n hm hn => ?_) fun i m n hm hn => ?_
    · obtain rfl := List.mem_singleton.1 (List.mem_of_getElem? hm)
      obtain rfl := List.mem_singleton.1 (List.mem_of_getElem? hn)
      rfl
    · obtain rfl := List.mem_singleton.1 (List.mem_of_getElem? hm)
      obtain rfl := List.mem_singleton.1 (List.mem_of_getElem? hn)
      exact .text rfl
  have hdigested : digested writeValueAsString loneTree = digested writeValueAsString askedTree :=
    (digested_eq_iff writeValueAsString writeValueAsString_quoted (note_distinct _) (note_distinct _)).2
      halike
  refine ⟨readTree_lone, readTree_asked, note_distinct _, note_distinct _, ?_, fun hsame => ?_⟩
  · rw [hash_eq writeValueAsString readTree sha256 readTree_lone, hash_eq writeValueAsString readTree sha256
      readTree_asked, hdigested]
  · cases hsame with
    | object _ hmembers =>
      have htext := hmembers (units "note") _ _ List.mem_cons_self List.mem_cons_self
      cases htext

end Notation

end CanonicalRequestHasher

end GManager
