import GManager.CodeUnits
import GManager.Replacement

/-!
# Redacting error texts

`SensitiveDataSanitizer.redact` replaces bearer tokens, then the values behind sensitive words, then
e-mail addresses. The texts are those of the server's language: lists of code units. A JSON member with
a sensitive name is redacted whatever its value, as long as the value has none of the characters at
which the class of values ends.
-/

namespace GManager

/-- Letter case as the expressions disregard it. -/
def lower (c : CodeUnit) : CodeUnit := if 65 ≤ c.toNat ∧ c.toNat ≤ 90 then c + 32 else c

def isLetter (c : CodeUnit) : Bool := 97 ≤ (lower c).toNat && (lower c).toNat ≤ 122

def isDigit (c : CodeUnit) : Bool := 48 ≤ c.toNat && c.toNat ≤ 57

/-- `\s` -/
def isSpace (c : CodeUnit) : Bool := c ∈ [unit ' ', unit '\t', unit '\n', 11, 12, unit '\r']

namespace SensitiveDataSanitizer

/-! ### Bearer tokens -/

-- [A-Za-z0-9._~+/-]
def isTokenChar (c : CodeUnit) : Bool :=
  isLetter c || isDigit c || c ∈ [unit '.', unit '_', unit '~', unit '+', unit '/', unit '-']

-- (?i)Bearer\s+[A-Za-z0-9._~+/-]+=*
def findBearer (s : List CodeUnit) : Option (List CodeUnit × List CodeUnit) :=
  (word lower (units "bearer") s).bind fun (_, s) =>
  (many1 isSpace s).bind fun (_, s) =>
  (many1 isTokenChar s).map fun (_, s) =>
  (units "Bearer [REDACTED]", s.dropWhile (· == unit '='))

/-! ### Sensitive words -/

def sensitive : List (List CodeUnit) :=
  [units "password", units "secret", units "token", units "authorization", units "cookie"]

/-- `[\s"']` -/
def isBlankOrQuote (c : CodeUnit) : Bool := isSpace c || c ∈ [unit '"', unit '\'']

/-- `[:=]` -/
def isSeparator (c : CodeUnit) : Bool := c ∈ [unit ':', unit '=']

/-- `[^\s,;"'}]` -/
def isValueChar (c : CodeUnit) : Bool :=
  !(isSpace c || c ∈ [unit ',', unit ';', unit '"', unit '\'', unit '\x7d'])

/-- `(password|secret|token|authorization|cookie)` -/
def findWord (s : List CodeUnit) : Option (List CodeUnit × List CodeUnit) :=
  sensitive.findSome? fun k => word lower k s

/-- `[\s"']*[:=][\s"']*` -/
def findSeparator (s : List CodeUnit) : Option (List CodeUnit × List CodeUnit) :=
  match s.dropWhile isBlankOrQuote with
  | [] => none
  | c :: t =>
    if isSeparator c then
      some (s.takeWhile isBlankOrQuote ++ c :: t.takeWhile isBlankOrQuote, t.dropWhile isBlankOrQuote)
    else none

/-- `(?i)(password|secret|token|authorization|cookie)([\s"']*[:=][\s"']*)([^\s,;"'}]+)` -/
def findSecret (s : List CodeUnit) : Option (List CodeUnit × List CodeUnit) :=
  (findWord s).bind fun (key, s) =>
  (findSeparator s).bind fun (separator, s) =>
  (many1 isValueChar s).map fun (_, s) =>
  (key ++ separator ++ units "[REDACTED]", s)

/-! ### E-mail addresses -/

/-- `[A-Z0-9._%+-]` -/
def isLocalChar (c : CodeUnit) : Bool :=
  isLetter c || isDigit c || c ∈ [unit '.', unit '_', unit '%', unit '+', unit '-']

/-- `[A-Z0-9.-]` -/
def isDomainChar (c : CodeUnit) : Bool := isLetter c || isDigit c || c ∈ [unit '.', unit '-']

/-- What is left behind `\.[A-Z]{2,}`. -/
def behindTopLevel : List CodeUnit → Option (List CodeUnit)
  | [] => none
  | c :: s => if c = unit '.' ∧ 2 ≤ (s.takeWhile isLetter).length then some (s.dropWhile isLetter) else none

/-- What is left behind `[A-Z0-9.-]+\.[A-Z]{2,}`: the domain goes on as long as a top level can follow. -/
def behindDomain : List CodeUnit → Option (List CodeUnit)
  | [] => none
  | c :: s => if isDomainChar c then (behindDomain s).or (behindTopLevel s) else none

/-- `(?i)[A-Z0-9._%+-]+@[A-Z0-9.-]+\.[A-Z]{2,}` -/
def findEmail (s : List CodeUnit) : Option (List CodeUnit × List CodeUnit) :=
  (many1 isLocalChar s).bind fun (_, s) =>
  match s with
  | [] => none
  | c :: s => if c = unit '@' then (behindDomain s).map fun s => (units "[REDACTED_EMAIL]", s) else none

/-! ### The three replacements -/

theorem consumes_of_suffix {s m x t : List CodeUnit} (hm : m ≠ []) (hs : s = m ++ x) (h : t <:+ x) :
    ∃ m, m ≠ [] ∧ s = m ++ t := by
  obtain ⟨y, rfl⟩ := h
  exact ⟨m ++ y, by simp [hm], by rw [hs, List.append_assoc]⟩

theorem findBearer_eq_some {s r t : List CodeUnit} (h : findBearer s = some (r, t)) :
    ∃ m x, word lower (units "bearer") s = some (m, x) ∧ r = units "Bearer [REDACTED]" ∧
    t = ((x.dropWhile isSpace).dropWhile isTokenChar).dropWhile (· == unit '=') ∧
    x.takeWhile isSpace ≠ [] := by
  simp only [findBearer, Option.bind_eq_some_iff, Option.map_eq_some_iff, Prod.mk.injEq, Prod.exists] at h
  obtain ⟨m, x, hw, m₁, x₁, h₁, m₂, x₂, h₂, rfl, rfl⟩ := h
  obtain ⟨hne, rfl, rfl⟩ := many1_eq_some.1 h₁
  obtain ⟨-, -, rfl⟩ := many1_eq_some.1 h₂
  exact ⟨m, x, hw, rfl, rfl, hne⟩

/-- What is left behind a sensitive word found at the front. -/
theorem findWord_eq_some {s m t : List CodeUnit} (h : findWord s = some (m, t)) : s = m ++ t ∧
    m.map lower ∈ sensitive := by
  obtain ⟨k, hk, hw⟩ := List.exists_of_findSome?_eq_some h
  obtain ⟨rfl, rfl⟩ := word_eq_some.1 hw
  exact ⟨rfl, hk⟩

theorem findSeparator_eq_some {s m t : List CodeUnit} (h : findSeparator s = some (m, t)) :
    ∃ c x, isSeparator c = true ∧ s.dropWhile isBlankOrQuote = c :: x ∧ t = x.dropWhile isBlankOrQuote := by
  unfold findSeparator at h
  split at h
  · cases h
  · rename_i c x hx
    split at h
    · rename_i hc
      cases h
      exact ⟨c, x, hc, hx, rfl⟩
    · cases h

theorem findSecret_eq_some {s r t : List CodeUnit} (h : findSecret s = some (r, t)) : ∃ key x separator y,
    findWord s = some (key, x) ∧ findSeparator x = some (separator, y) ∧ y.takeWhile isValueChar ≠ [] ∧
    r = key ++ separator ++ units "[REDACTED]" ∧ t = y.dropWhile isValueChar := by
  simp only [findSecret, Option.bind_eq_some_iff, Option.map_eq_some_iff, Prod.mk.injEq, Prod.exists] at h
  obtain ⟨key, x, hw, separator, y, hs, v, y', hv, rfl, rfl⟩ := h
  obtain ⟨hne, rfl, rfl⟩ := many1_eq_some.1 hv
  exact ⟨key, x, separator, y, hw, hs, hne, rfl, rfl⟩

theorem behindTopLevel_suffix {s t : List CodeUnit} (h : behindTopLevel s = some t) : t <:+ s := by
  match s with
  | [] => cases h
  | c :: s =>
    simp only [behindTopLevel, Option.ite_none_right_eq_some, Option.some.injEq] at h
    obtain ⟨-, rfl⟩ := h
    exact (List.dropWhile_suffix _).trans (List.suffix_cons _ _)

theorem behindDomain_suffix {s t : List CodeUnit} (h : behindDomain s = some t) : t <:+ s := by
  induction s with
  | nil => cases h
  | cons c s ih =>
    simp only [behindDomain, Option.ite_none_right_eq_some, Option.or_eq_some_iff] at h
    obtain ⟨-, h | ⟨-, h⟩⟩ := h
    · exact (ih h).trans (List.suffix_cons _ _)
    · exact (behindTopLevel_suffix h).trans (List.suffix_cons _ _)

theorem findEmail_eq_some {s r t : List CodeUnit} (h : findEmail s = some (r, t)) : ∃ x,
    s.takeWhile isLocalChar ≠ [] ∧ s.dropWhile isLocalChar = unit '@' :: x ∧ behindDomain x = some t ∧
    r = units "[REDACTED_EMAIL]" := by
  simp only [findEmail, Option.bind_eq_some_iff, Prod.exists] at h
  obtain ⟨m, x, hm, h⟩ := h
  obtain ⟨hne, rfl, rfl⟩ := many1_eq_some.1 hm
  split at h
  · cases h
  · rename_i c x hx
    split at h
    · rename_i hc
      obtain ⟨y, hy, h⟩ := Option.map_eq_some_iff.1 h
      cases h
      exact ⟨x, hne, hc ▸ hx, hy, rfl⟩
    · cases h

def BEARER : Pattern CodeUnit where
  find := findBearer
  consumes s r t h := by
    obtain ⟨m, x, hw, -, rfl, -⟩ := findBearer_eq_some h
    obtain ⟨rfl, hm⟩ := word_eq_some.1 hw
    refine consumes_of_suffix (fun h => ?_) rfl ((List.dropWhile_suffix _).trans
      ((List.dropWhile_suffix _).trans (List.dropWhile_suffix _)))
    rw [h] at hm
    exact absurd hm (by decide)

def SECRET : Pattern CodeUnit where
  find := findSecret
  consumes s r t h := by
    obtain ⟨key, x, separator, y, hw, hs, -, -, rfl⟩ := findSecret_eq_some h
    obtain ⟨rfl, hkey⟩ := findWord_eq_some hw
    obtain ⟨c, z, -, hz, rfl⟩ := findSeparator_eq_some hs
    refine consumes_of_suffix (fun h => ?_) rfl
      ((List.dropWhile_suffix _).trans
        ((List.dropWhile_suffix _).trans ((List.suffix_cons c z).trans (hz ▸ List.dropWhile_suffix _))))
    rw [h] at hkey
    exact absurd hkey (by decide)

def EMAIL : Pattern CodeUnit where
  find := findEmail
  consumes s r t h := by
    obtain ⟨x, hne, hx, hd, -⟩ := findEmail_eq_some h
    refine consumes_of_suffix hne List.takeWhile_append_dropWhile.symm ?_
    exact (behindDomain_suffix hd).trans (hx ▸ List.suffix_cons _ _)

def redact : Option (List CodeUnit) → Option (List CodeUnit)
  | none => none
  | some value =>
    let sanitized := BEARER.replaceAll value
    let sanitized := SECRET.replaceAll sanitized
    some (EMAIL.replaceAll sanitized)

/-! ### Classes of characters -/

section classes

variable {c : CodeUnit} {k m : List CodeUnit}

theorem isLetter_of_lower_mem (hk : k.all (fun x => 97 ≤ x.toNat && x.toNat ≤ 122) = true)
    (h : lower c ∈ k) : isLetter c = true :=
  List.all_eq_true.1 hk _ h

theorem isLetter_of_mem_bearer (h : lower c ∈ units "bearer") : isLetter c = true :=
  isLetter_of_lower_mem (by decide) h

theorem letters_of_sensitive :
    ∀ k ∈ sensitive, k.all (fun x => 97 ≤ x.toNat && x.toNat ≤ 122) = true := by decide

theorem isLetter_of_mem_key (hm : m.map lower ∈ sensitive) (h : c ∈ m) : isLetter c = true :=
  isLetter_of_lower_mem (letters_of_sensitive _ hm) (List.mem_map_of_mem h)

theorem not_space_of_letter (h : isLetter c = true) : isSpace c = false := by
  refine Bool.eq_false_iff.2 fun hs => ?_
  simp only [isSpace, List.mem_cons, List.not_mem_nil, or_false, decide_eq_true_eq] at hs
  rcases hs with rfl | rfl | rfl | rfl | rfl | rfl <;> exact absurd h (by decide)

theorem ne_of_letter (h : isLetter c = true) (x : CodeUnit) (hx : isLetter x = false) : c ≠ x := by
  rintro rfl
  rw [h] at hx
  cases hx

theorem not_blankOrQuote_of_letter (h : isLetter c = true) : isBlankOrQuote c = false := by
  simp [isBlankOrQuote, not_space_of_letter h, ne_of_letter h (unit '"') (by decide),
    ne_of_letter h (unit '\'') (by decide)]

theorem not_separator_of_letter (h : isLetter c = true) : isSeparator c = false := by
  simp [isSeparator, ne_of_letter h (unit ':') (by decide), ne_of_letter h (unit '=') (by decide)]

theorem valueChar_of_letter (h : isLetter c = true) : isValueChar c = true := by
  simp [isValueChar, not_space_of_letter h, ne_of_letter h (unit ',') (by decide),
    ne_of_letter h (unit ';') (by decide), ne_of_letter h (unit '"') (by decide),
    ne_of_letter h (unit '\'') (by decide), ne_of_letter h (unit '\x7d') (by decide)]

theorem not_valueChar_of_blankOrQuote (h : isBlankOrQuote c = true) : isValueChar c = false := by
  simp only [isBlankOrQuote, Bool.or_eq_true, List.mem_cons, List.not_mem_nil, or_false,
    decide_eq_true_eq] at h
  rcases h with h | rfl | rfl
  · simp [isValueChar, h]
  · decide
  · decide

end classes

/-! ### Seams -/

section seams

variable {c : CodeUnit} {b : List CodeUnit}

theorem bearer_cut (hb : ∀ c ∈ b.head?, isTokenChar c = false ∧ isSpace c = false ∧ c ≠ unit '=')
    (s : List CodeUnit) : BEARER.Cut s b := by
  have hword : ∀ c ∈ b.head?, lower c ∉ units "bearer" := by
    intro c hc hl
    have := (hb c hc).1
    simp [isTokenChar, isLetter_of_mem_bearer hl] at this
  simp only [Pattern.Cut, BEARER, findBearer, word_append hword]
  cases word lower (units "bearer") s with
  | none => rfl
  | some x =>
    simp only [Option.map_some, Option.bind_some, Prod.map_snd, many1_append fun c hc => (hb c hc).2.1]
    cases many1 isSpace x.2 with
    | none => rfl
    | some y =>
      simp only [Option.map_some, Option.bind_some, Prod.map_snd, many1_append fun c hc => (hb c hc).1]
      cases many1 isTokenChar y.2 with
      | none => rfl
      | some z =>
        have hrest := (takeWhile_append_of_head (s := z.2) (f := (· == unit '=')) fun c hc =>
          beq_false_of_ne (hb c hc).2.2).2
        simp [hrest]

theorem bearer_stops (hc : isTokenChar c = false ∧ isSpace c = false ∧ c ≠ unit '=') : BEARER.Stops c := by
  refine ⟨fun s => ?_, fun s b => bearer_cut (by simpa using hc) s⟩
  rw [show c :: s = [] ++ c :: s from rfl, bearer_cut (by simpa using hc)]
  rfl

theorem bearer_none {s : List CodeUnit} (h : ∀ c ∈ s.head?, isLetter c = false) : BEARER.find s = none := by
  show findBearer s = none
  rw [findBearer, ← List.nil_append s, word_append fun c hc hl => ?_]
  · rfl
  · have := h c hc
    rw [isLetter_of_mem_bearer hl] at this
    cases this

theorem behindTopLevel_append (hb : ∀ c ∈ b.head?, isDomainChar c = false) (s : List CodeUnit) :
    behindTopLevel (s ++ b) = (behindTopLevel s).map (· ++ b) := by
  have hletter : ∀ c ∈ b.head?, isLetter c = false := by
    intro c hc
    have := hb c hc
    simp only [isDomainChar, Bool.or_eq_false_iff] at this
    exact this.1.1
  match s with
  | [] =>
    match b with
    | [] => rfl
    | c :: b =>
      have : c ≠ unit '.' := by
        rintro rfl
        exact absurd (hb _ rfl) (by decide)
      simp [behindTopLevel, this]
  | c :: s =>
    simp only [List.cons_append, behindTopLevel, (takeWhile_append_of_head hletter).1,
      (takeWhile_append_of_head hletter).2]
    split <;> rfl

theorem behindDomain_append (hb : ∀ c ∈ b.head?, isDomainChar c = false) (s : List CodeUnit) :
    behindDomain (s ++ b) = (behindDomain s).map (· ++ b) := by
  induction s with
  | nil =>
    match b with
    | [] => rfl
    | c :: b => simp [behindDomain, hb c rfl]
  | cons c s ih =>
    simp only [List.cons_append, behindDomain, ih, behindTopLevel_append hb]
    split
    · cases behindDomain s <;> rfl
    · rfl

theorem domain_of_local (hc : isLocalChar c = false) : isDomainChar c = false := by
  simp only [isLocalChar, isDomainChar, Bool.or_eq_false_iff, List.mem_cons, List.not_mem_nil, or_false,
    decide_eq_false_iff_not, not_or] at hc ⊢
  exact ⟨hc.1, hc.2.1, hc.2.2.2.2.2⟩

theorem email_stops (hc : isLocalChar c = false) (hat : c ≠ unit '@') : EMAIL.Stops c := by
  have hcut : ∀ s b, EMAIL.Cut s (c :: b) := by
    intro s b
    simp only [Pattern.Cut, EMAIL, findEmail]
    rw [many1_append (by simpa using hc)]
    cases many1 isLocalChar s with
    | none => rfl
    | some x =>
      obtain ⟨m, x⟩ := x
      simp only [Option.map_some, Option.bind_some, Prod.map_apply, id]
      match x with
      | [] => simp [hat]
      | d :: x =>
        simp only [List.cons_append]
        split
        · rw [behindDomain_append (by simpa using domain_of_local hc)]
          cases behindDomain x <;> rfl
        · rfl
  refine ⟨fun s => ?_, hcut⟩
  rw [show c :: s = [] ++ c :: s from rfl, hcut]
  rfl

/-- A character that no part of the expression before the value matches. -/
abbrev Guards (c : CodeUnit) : Prop := isBlankOrQuote c = false ∧ isSeparator c = false

theorem guards_of_letter (h : isLetter c = true) : Guards c :=
  ⟨not_blankOrQuote_of_letter h, not_separator_of_letter h⟩

theorem findWord_append (hb : ∀ c ∈ b.head?, isLetter c = false) (s : List CodeUnit) :
    findWord (s ++ b) = (findWord s).map (Prod.map id (· ++ b)) := by
  have hword : ∀ k ∈ sensitive, word lower k (s ++ b) = (word lower k s).map (Prod.map id (· ++ b)) := by
    intro k hk
    refine word_append fun c hc hl => ?_
    have := hb c hc
    rw [isLetter_of_lower_mem (letters_of_sensitive k hk) hl] at this
    cases this
  unfold findWord
  generalize sensitive = ks at hword
  induction ks with
  | nil => rfl
  | cons k ks ih =>
    rw [List.findSome?_cons, List.findSome?_cons, hword k (by simp), ih fun k hk => hword k (by simp [hk])]
    cases word lower k s <;> rfl

theorem findSeparator_append {s : List CodeUnit} {g : CodeUnit} (hg : Guards g) (hs : g ∈ s) :
    findSeparator (s ++ b) = (findSeparator s).map (Prod.map id (· ++ b)) ∧
    ∀ m t, findSeparator s = some (m, t) → g ∈ t := by
  have hmem := mem_dropWhile hs hg.1
  unfold findSeparator
  rw [(takeWhile_append_of_mem hs hg.1).1, (takeWhile_append_of_mem hs hg.1).2]
  match hd : s.dropWhile isBlankOrQuote with
  | [] => simp [hd] at hmem
  | c :: x =>
    rw [hd] at hmem
    rw [List.cons_append]
    by_cases hc : isSeparator c = true
    · have hx : g ∈ x := by
        refine (List.mem_cons.1 hmem).resolve_left fun h => ?_
        rw [← h, hg.2] at hc
        cases hc
      simp only [hc, if_true, (takeWhile_append_of_mem hx hg.1).1, (takeWhile_append_of_mem hx hg.1).2]
      refine ⟨rfl, fun m t h => ?_⟩
      cases h
      exact mem_dropWhile hx hg.1
    · simp [hc]

/-- What is found does not run over a quote when a guard stands between the word and the quote. -/
theorem secret_cut {s : List CodeUnit} (h : ∀ m x, findWord s = some (m, x) → ∃ g ∈ x, Guards g) :
    SECRET.Cut s (unit '"' :: b) := by
  have hquote : ∀ c ∈ (unit '"' :: b).head?, isValueChar c = false := by
    rintro c ⟨⟩
    decide
  simp only [Pattern.Cut, SECRET, findSecret]
  rw [findWord_append (by rintro c ⟨⟩; decide)]
  cases hw : findWord s with
  | none => rfl
  | some x =>
    obtain ⟨m, x⟩ := x
    obtain ⟨g, hgx, hg⟩ := h m x hw
    simp only [Option.map_some, Option.bind_some, Prod.map_apply, id, (findSeparator_append hg hgx).1]
    cases hsep : findSeparator x with
    | none => rfl
    | some y =>
      simp only [Option.map_some, Option.bind_some, Prod.map_fst, Prod.map_snd, many1_append hquote]
      cases many1 isValueChar y.2 <;> rfl

theorem findSeparator_append_of_head (hb : ∀ c ∈ b.head?, Guards c) (s : List CodeUnit) :
    findSeparator (s ++ b) = (findSeparator s).map (Prod.map id (· ++ b)) := by
  have hblank : ∀ c ∈ b.head?, isBlankOrQuote c = false := fun c hc => (hb c hc).1
  unfold findSeparator
  rw [(takeWhile_append_of_head hblank).1, (takeWhile_append_of_head hblank).2]
  match s.dropWhile isBlankOrQuote with
  | [] =>
    match b with
    | [] => rfl
    | c :: b => simp [(hb c rfl).2]
  | c :: x =>
    rw [List.cons_append]
    by_cases hc : isSeparator c = true
    · simp [hc, (takeWhile_append_of_head hblank).1, (takeWhile_append_of_head hblank).2]
    · simp [hc]

theorem findWord_none {s : List CodeUnit} (h : ∀ c ∈ s.head?, isLetter c = false) : findWord s = none := by
  rw [← List.nil_append s, findWord_append h]
  rfl

theorem secret_none {s : List CodeUnit} (h : ∀ c ∈ s.head?, isLetter c = false) : SECRET.find s = none := by
  show findSecret s = none
  rw [findSecret, findWord_none h]
  rfl

theorem findSeparator_none {x : List CodeUnit} (h : ∀ c ∈ x, isBlankOrQuote c = true) :
    findSeparator x = none := by
  unfold findSeparator
  rw [List.dropWhile_eq_nil_iff.2 h]

/-- A quote at the end of the text is no part of a match: there is no value behind it. -/
theorem secret_cut_end (s : List CodeUnit) : SECRET.Cut s [unit '"'] := by
  have hquote : ∀ t : List CodeUnit, (∀ c ∈ t, isBlankOrQuote c = true) →
      ∀ c ∈ t ++ [unit '"'], isBlankOrQuote c = true := by
    intro t ht c hc
    rcases List.mem_append.1 hc with hc | hc
    · exact ht c hc
    · rw [List.mem_singleton.1 hc]
      decide
  have hvalue : ∀ c ∈ [unit '"'].head?, isValueChar c = false := by
    rintro c ⟨⟩
    decide
  simp only [Pattern.Cut, SECRET, findSecret]
  rw [findWord_append (by simp; decide)]
  cases findWord s with
  | none => rfl
  | some x =>
    obtain ⟨m, x⟩ := x
    simp only [Option.map_some, Option.bind_some, Prod.map_apply, id]
    by_cases hx : ∀ c ∈ x, isBlankOrQuote c = true
    · rw [findSeparator_none hx, findSeparator_none (hquote x hx)]
      rfl
    · simp only [not_forall, Bool.not_eq_true] at hx
      obtain ⟨c, hc, hcb⟩ := hx
      unfold findSeparator
      rw [(takeWhile_append_of_mem hc hcb).1, (takeWhile_append_of_mem hc hcb).2]
      match x.dropWhile isBlankOrQuote with
      | [] => rfl
      | d :: t =>
        rw [List.cons_append]
        by_cases hd : isSeparator d = true
        · simp only [hd, if_true, Option.bind_some]
          by_cases ht : ∀ c ∈ t, isBlankOrQuote c = true
          · rw [List.dropWhile_eq_nil_iff.2 ht, List.dropWhile_eq_nil_iff.2 (hquote t ht)]
            rfl
          · simp only [not_forall, Bool.not_eq_true] at ht
            obtain ⟨c, hc, hcb⟩ := ht
            rw [(takeWhile_append_of_mem hc hcb).1, (takeWhile_append_of_mem hc hcb).2, many1_append hvalue]
            cases many1 isValueChar (t.dropWhile isBlankOrQuote) <;> rfl
        · simp [hd]

/-- A comma or a closing brace ends a match wherever it stands. -/
theorem secret_stops (hc : c = unit ',' ∨ c = unit '\x7d') : SECRET.Stops c := by
  obtain ⟨hletter, hg, hvalue⟩ : isLetter c = false ∧ Guards c ∧ isValueChar c = false := by
    rcases hc with rfl | rfl <;> decide
  refine ⟨fun s => secret_none (by simpa using hletter), fun s b => ?_⟩
  simp only [Pattern.Cut, SECRET, findSecret]
  rw [findWord_append (by simpa using hletter)]
  cases findWord s with
  | none => rfl
  | some x =>
    simp only [Option.map_some, Option.bind_some, Prod.map_fst, Prod.map_snd]
    rw [findSeparator_append_of_head (by simpa using hg)]
    cases findSeparator x.2 with
    | none => rfl
    | some y =>
      simp only [Option.map_some, Option.bind_some, Prod.map_fst, Prod.map_snd]
      rw [many1_append (by simpa using hvalue)]
      cases many1 isValueChar y.2 <;> rfl

end seams

/-! ### The word at the end of a name -/

section words

variable {key y s r t b : List CodeUnit}

/-- A text in front of the word is left, or nothing. -/
theorem behind_letters {f : CodeUnit → Bool} (hf : (∀ c ∈ key, f c = true) ∨ ∀ c ∈ key, f c = false)
    (h : (∃ z, s = z ++ key) ∨ s = []) : (∃ z, s.dropWhile f = z ++ key) ∨ s.dropWhile f = [] := by
  rcases h with ⟨z, rfl⟩ | rfl
  · rcases hf with hf | hf
    · exact dropWhile_append_of_all hf
    · exact .inl (dropWhile_append_of_none hf)
  · exact .inr rfl

theorem findSeparator_member (t : List CodeUnit) : findSeparator (unit '"' :: unit ':' :: unit '"' :: t) =
    some (unit '"' :: unit ':' :: unit '"' :: t.takeWhile isBlankOrQuote, t.dropWhile isBlankOrQuote) := by
  have hquote : isBlankOrQuote (unit '"') = true := by decide
  have hcolon : isBlankOrQuote (unit ':') = false := by decide
  have hsep : isSeparator (unit ':') = true := by decide
  simp [findSeparator, hquote, hcolon, hsep]

variable (hkey : key.map lower ∈ sensitive)
include hkey

theorem key_ne_nil : key ≠ [] := by
  rintro rfl
  exact absurd hkey (by decide)

theorem letter_of_key : ∀ c ∈ key, isLetter c = true := fun _ hc => isLetter_of_mem_key hkey hc

theorem behind_word {m x : List CodeUnit} (hx : ∃ c ∈ x, isLetter c = false) (h : y ++ key = m ++ x) :
    ∃ z, x = z ++ key := by
  rcases List.append_eq_append_iff.1 h with ⟨z, rfl, rfl⟩ | ⟨z, rfl, rfl⟩
  · obtain ⟨c, hc, hl⟩ := hx
    rw [letter_of_key hkey c (by simp [hc])] at hl
    cases hl
  · exact ⟨z, rfl⟩

theorem bearer_cover (h : findBearer (y ++ key) = some (r, t)) : (∃ z, t = z ++ key) ∨ t = [] := by
  obtain ⟨m, x, hw, -, rfl, hne⟩ := findBearer_eq_some h
  have hx : ∃ c ∈ x, isLetter c = false := by
    obtain ⟨c, hc⟩ := List.exists_mem_of_ne_nil _ hne
    refine ⟨c, (List.takeWhile_sublist _).subset hc, Bool.eq_false_iff.2 fun hl => ?_⟩
    have hs := List.mem_takeWhile_imp hc
    rw [not_space_of_letter hl] at hs
    cases hs
  have hl := letter_of_key hkey
  obtain ⟨z, rfl⟩ := behind_word hkey hx (word_eq_some.1 hw).1
  refine behind_letters (.inr fun c hc => ?_) (behind_letters (.inl fun c hc => ?_)
    (behind_letters (.inr fun c hc => not_space_of_letter (hl c hc)) (.inl ⟨z, rfl⟩)))
  · exact beq_false_of_ne (ne_of_letter (hl c hc) _ (by decide))
  · simp [isTokenChar, hl c hc]

theorem secret_cover (h : findSecret (y ++ key) = some (r, t)) : (∃ z, t = z ++ key) ∨ t = [] := by
  obtain ⟨m, x, separator, x', hw, hsep, -, -, rfl⟩ := findSecret_eq_some h
  obtain ⟨c, u, hc, hu, rfl⟩ := findSeparator_eq_some hsep
  have hl := letter_of_key hkey
  have hcl : isLetter c = false := Bool.eq_false_iff.2 fun h => by simp [not_separator_of_letter h] at hc
  have hx : ∃ c ∈ x, isLetter c = false :=
    ⟨c, (List.dropWhile_suffix _).subset (hu ▸ List.mem_cons_self), hcl⟩
  obtain ⟨z, rfl⟩ := behind_word hkey hx (findWord_eq_some hw).1
  have hblank : ∀ c ∈ key, isBlankOrQuote c = false := fun c hc => not_blankOrQuote_of_letter (hl c hc)
  obtain ⟨z', hz'⟩ := dropWhile_append_of_none (s := z) hblank
  obtain ⟨w, rfl⟩ : ∃ w, u = w ++ key := by
    rw [hu] at hz'
    match z' with
    | [] =>
      rw [List.nil_append] at hz'
      rw [hl c (hz' ▸ List.mem_cons_self)] at hcl
      cases hcl
    | d :: w => exact ⟨w, (List.cons.inj hz').2⟩
  exact behind_letters (.inl fun c hc => valueChar_of_letter (hl c hc))
    (behind_letters (.inr hblank) (.inl ⟨w, rfl⟩))

theorem eq_nil_of_word (hs : (y ++ key).map lower ∈ sensitive) : y = [] := by
  have hno : ∀ k ∈ sensitive, ∀ k' ∈ sensitive, k' <:+ k → k' = k := by decide
  have := hno _ hs _ hkey ⟨y.map lower, by simp⟩
  rw [List.map_append] at this
  simpa using congrArg List.length this

/-- Behind the name comes a quote; only the word at its end takes in more than the name. -/
theorem secret_cut_word (hy : y ≠ []) : SECRET.Cut (y ++ key) (unit '"' :: b) := by
  refine secret_cut fun m x hw => ?_
  obtain ⟨heq, hm⟩ := findWord_eq_some hw
  have hx : x ≠ [] := by
    rintro rfl
    rw [List.append_nil] at heq
    exact hy (eq_nil_of_word hkey (heq ▸ hm))
  refine ⟨x.getLast hx, List.getLast_mem hx, guards_of_letter (letter_of_key hkey _ ?_)⟩
  have hlast : x.getLast hx = key.getLast (key_ne_nil hkey) := by
    rw [← List.getLast_append_of_ne_nil (show m ++ x ≠ [] by simp [hx]) hx,
      ← List.getLast_append_of_ne_nil (show y ++ key ≠ [] by simp [hy]) (key_ne_nil hkey)]
    simp only [heq]
  rw [hlast]
  exact List.getLast_mem _

theorem findWord_key (t : List CodeUnit) : findWord (key ++ t) = some (key, t) := by
  have hno : ∀ k ∈ sensitive, ∀ k' ∈ sensitive, k' <+: k → k' = k := by decide
  have hsome : (findWord (key ++ t)).isSome := by
    rw [findWord, List.isSome_findSome?, List.any_eq_true]
    exact ⟨_, hkey, by rw [word_eq_some.2 ⟨rfl, rfl⟩]; rfl⟩
  obtain ⟨⟨m, x⟩, hw⟩ := Option.isSome_iff_exists.1 hsome
  obtain ⟨heq, hm⟩ := findWord_eq_some hw
  rw [hw]
  rcases List.append_eq_append_iff.1 heq with ⟨z, rfl, rfl⟩ | ⟨z, rfl, rfl⟩
  · have := congrArg List.length (hno _ hm _ hkey ⟨z.map lower, by simp⟩)
    rw [List.length_map, List.length_map, List.length_append] at this
    obtain rfl := List.eq_nil_of_length_eq_zero (show z.length = 0 by omega)
    simp
  · have := congrArg List.length (hno _ hkey _ hm ⟨z.map lower, by simp⟩)
    rw [List.length_map, List.length_map, List.length_append] at this
    obtain rfl := List.eq_nil_of_length_eq_zero (show z.length = 0 by omega)
    simp

/-- What is found at the word, in front of a member's value. -/
theorem findSecret_member (t : List CodeUnit) : findSecret (key ++ unit '"' :: unit ':' :: unit '"' :: t) =
    (many1 isValueChar (t.dropWhile isBlankOrQuote)).map fun x =>
      (key ++ (unit '"' :: unit ':' :: unit '"' :: t.takeWhile isBlankOrQuote) ++
        units "[REDACTED]", x.2) := by
  simp only [findSecret, findWord_key hkey, Option.bind_some]
  rw [findSeparator_member]
  rfl

end words

end SensitiveDataSanitizer

/-! ### What is persisted -/

/-- `Character.isWhitespace` -/
def isWhitespace (c : CodeUnit) : Bool :=
  (9 ≤ c.toNat && c.toNat ≤ 13) || (28 ≤ c.toNat && c.toNat ≤ 32) ||
    c.toNat ∈ [0x1680, 0x2028, 0x2029, 0x205f, 0x3000] ||
    (0x2000 ≤ c.toNat && c.toNat ≤ 0x200a && c.toNat ≠ 0x2007)

namespace JobStore

def abbreviate (value : Option (List CodeUnit)) : Option (List CodeUnit) :=
  if value.all (·.all isWhitespace) then none
  else (SensitiveDataSanitizer.redact value).map fun sanitized => if sanitized.length ≤ 500 then sanitized
    else sanitized.take 500

end JobStore

namespace OutboxStore

def abbreviate (value : Option (List CodeUnit)) : Option (List CodeUnit) :=
  let safe := if value.all (·.all isWhitespace) then some (units "Consumer failed")
    else SensitiveDataSanitizer.redact value
  safe.map fun safe => if safe.length ≤ 500 then safe else safe.take 500

end OutboxStore
end GManager
