import GManager.Redaction
import Mathlib.Data.List.Infix

/-!
# Sensitive members in error texts

A JSON member whose name ends in a sensitive word, in the middle of any text. The three replacements go
through the text before it, its name, its value and the text behind it one by one: no match runs over the
quotes but the one that begins with the word at the end of the name and takes in the value.
-/

namespace GManager.SensitiveDataSanitizer

/-- `"name":"value"` in a text. -/
def memberText (a name v q : List CodeUnit) : List CodeUnit :=
  a ++ unit '"' :: (name ++ unit '"' :: unit ':' :: unit '"' :: (v ++ unit '"' :: q))

def isJsonSpace (c : CodeUnit) : Bool := c ∈ [unit ' ', unit '\t', unit '\n', unit '\r']

/-- A member can begin behind the text: it ends with an opening brace or a comma, and white space. -/
def BeforeMember (a : List CodeUnit) : Prop :=
  ∃ p c w, a = p ++ c :: w ∧ (c = unit '\x7b' ∨ c = unit ',') ∧ ∀ x ∈ w, isJsonSpace x = true

/-- The text goes on behind a member, with a comma or a closing brace. -/
def BehindMember (q : List CodeUnit) : Prop := ∃ c p, q = c :: p ∧ (c = unit ',' ∨ c = unit '\x7d')

def isHexDigit (c : CodeUnit) : Bool := isDigit c || (97 ≤ (lower c).toNat && (lower c).toNat ≤ 102)

/-- What stands between the quotes of a JSON string. -/
inductive StringBody : List CodeUnit → Prop
  | nil : StringBody []
  | char {c : CodeUnit} {s : List CodeUnit} (hc : 32 ≤ c.toNat ∧ c ≠ unit '"' ∧ c ≠ unit '\\')
      (hs : StringBody s) : StringBody (c :: s)
  | escape {c : CodeUnit} {s : List CodeUnit} (hc : c ∈ units "\"\\/bfnrt") (hs : StringBody s) :
      StringBody (unit '\\' :: c :: s)
  | hex {u s : List CodeUnit} (hu : u.length = 4 ∧ ∀ c ∈ u, isHexDigit c = true) (hs : StringBody s) :
      StringBody (unit '\\' :: unit 'u' :: (u ++ s))

/-- The value has no character at which the class of values ends: no white space, comma, semicolon, quote,
apostrophe or closing brace. -/
def Plain (v : List CodeUnit) : Prop := ∀ c ∈ v, isValueChar c = true

/-- The replacements come to the word at the end of the name: no bearer token in the name runs over it, and
no sensitive word before it has it in its value. -/
def Uncovered (x key : List CodeUnit) : Prop :=
  ∃ o o', BEARER.Scan (x ++ key) o key ∧ SECRET.Scan (o ++ key) o' key

section parts

variable {a name v q t s key x : List CodeUnit}

theorem BehindMember.replace {p : Pattern CodeUnit}
    (hstops : ∀ c, c = unit ',' ∨ c = unit '\x7d' → p.Stops c) (h : BehindMember q) :
    BehindMember (p.replaceAll q) := by
  obtain ⟨c, q, rfl, hc⟩ := h
  exact ⟨c, p.replaceAll q, (hstops c hc).replaceAll_cons, hc⟩

theorem not_letter_of_jsonSpace {c : CodeUnit} (h : isJsonSpace c = true) : isLetter c = false := by
  simp only [isJsonSpace, List.mem_cons, List.not_mem_nil, or_false, decide_eq_true_eq] at h
  rcases h with rfl | rfl | rfl | rfl <;> decide

theorem bearer_quote : BEARER.Stops (unit '"') := bearer_stops (by decide)

theorem bearer_member : BEARER.replaceAll (memberText a name v q) =
    memberText (BEARER.replaceAll a) (BEARER.replaceAll name)
      (BEARER.replaceAll v) (BEARER.replaceAll q) := by
  have hcolon : BEARER.Stops (unit ':') := bearer_stops (by decide)
  simp only [memberText, bearer_quote.replaceAll_append, hcolon.replaceAll_cons, bearer_quote.replaceAll_cons]

theorem email_member : EMAIL.replaceAll (memberText a name v q) =
    memberText (EMAIL.replaceAll a) (EMAIL.replaceAll name) (EMAIL.replaceAll v) (EMAIL.replaceAll q) := by
  have hquote : EMAIL.Stops (unit '"') := email_stops (by decide) (by decide)
  have hcolon : EMAIL.Stops (unit ':') := email_stops (by decide) (by decide)
  simp only [memberText, hquote.replaceAll_append, hcolon.replaceAll_cons, hquote.replaceAll_cons]

theorem BeforeMember.bearer (h : BeforeMember a) : BeforeMember (BEARER.replaceAll a) := by
  obtain ⟨p, c, w, rfl, hc, hw⟩ := h
  have hstops : BEARER.Stops c := bearer_stops (by rcases hc with rfl | rfl <;> decide)
  have hself : BEARER.replaceAll w = w := by
    refine Pattern.replaceAll_eq_self fun t ht hsuf => ?_
    match t with
    | c :: t =>
      exact bearer_none (by simpa using not_letter_of_jsonSpace (hw c (hsuf.subset List.mem_cons_self)))
  exact ⟨_, c, w, by rw [hstops.replaceAll_append, hself], hc, hw⟩

/-- A guard that is no letter stands behind whatever word is found. -/
theorem secret_cut_of_mem {g : CodeUnit} (hg : Guards g) (hl : isLetter g = false) (hs : g ∈ s) :
    SECRET.Cut s (unit '"' :: t) := by
  refine secret_cut fun m x hw => ⟨g, ?_, hg⟩
  obtain ⟨rfl, hm⟩ := findWord_eq_some hw
  refine (List.mem_append.1 hs).resolve_left fun h => ?_
  rw [isLetter_of_mem_key hm h] at hl
  cases hl

theorem secret_quote : SECRET.replaceAll (unit '"' :: t) = unit '"' :: SECRET.replaceAll t :=
  Pattern.replaceAll_of_none (secret_none (by simp; decide))

theorem BeforeMember.secret (h : BeforeMember a) : SECRET.replaceAll (a ++ unit '"' :: t) =
    SECRET.replaceAll a ++ unit '"' :: SECRET.replaceAll t := by
  obtain ⟨p, c, w, rfl, hc, hw⟩ := h
  rw [Pattern.replaceAll_append fun s hs hsuf => ?_, secret_quote]
  by_cases hmem : c ∈ s
  · exact secret_cut_of_mem (by rcases hc with rfl | rfl <;> decide)
      (by rcases hc with rfl | rfl <;> decide) hmem
  · -- Only white space of the boundary is left: no word is found in it.
    have hsw : s <:+ w := by
      rcases List.suffix_or_suffix_of_suffix hsuf (List.suffix_append p (c :: w)) with h | h
      · refine (List.suffix_cons_iff.1 h).resolve_left ?_
        rintro rfl
        exact hmem List.mem_cons_self
      · exact absurd (h.subset List.mem_cons_self) hmem
    refine secret_cut fun m x hword => ?_
    rw [findWord_none fun c hc =>
      not_letter_of_jsonSpace (hw c (hsw.subset (List.mem_of_mem_head? hc)))] at hword
    cases hword

/-- In front of a comma or a closing brace a quote is nothing but a quote. -/
theorem BehindMember.secret (h : BehindMember q) : SECRET.replaceAll (s ++ unit '"' :: q) =
    SECRET.replaceAll s ++ unit '"' :: SECRET.replaceAll q := by
  obtain ⟨c, q, rfl, hc⟩ := h
  have hstops := secret_stops hc
  have hend : SECRET.replaceAll (s ++ [unit '"']) = SECRET.replaceAll s ++ [unit '"'] := by
    rw [Pattern.replaceAll_append fun s _ _ => secret_cut_end s, secret_quote, Pattern.replaceAll_nil]
  rw [show s ++ unit '"' :: c :: q = s ++ [unit '"'] ++ c :: q by simp, hstops.replaceAll_append, hend,
    hstops.replaceAll_cons]
  simp

/-! ### The value -/

/-- What the second replacement makes of a value behind the word that it belongs to. -/
def shown (v : List CodeUnit) : List CodeUnit :=
  match many1 isValueChar (v.dropWhile isBlankOrQuote) with
  | some x => v.takeWhile isBlankOrQuote ++ (units "[REDACTED]" ++ SECRET.replaceAll x.2)
  | none => SECRET.replaceAll v

theorem shown_of_plain (hv : v ≠ []) (hplain : Plain v) : shown v = units "[REDACTED]" := by
  obtain ⟨c, v, rfl⟩ := List.exists_cons_of_ne_nil hv
  have hc : isBlankOrQuote c = false := by
    refine Bool.eq_false_iff.2 fun h => ?_
    have := not_valueChar_of_blankOrQuote h
    rw [hplain c List.mem_cons_self] at this
    cases this
  have hall : (c :: v).takeWhile isValueChar = c :: v := List.takeWhile_eq_self_iff.2 hplain
  have hnone : (c :: v).dropWhile isValueChar = [] := List.dropWhile_eq_nil_iff.2 hplain
  simp only [shown, many1, List.dropWhile_cons_of_neg (Bool.eq_false_iff.1 hc),
    List.takeWhile_cons_of_neg (Bool.eq_false_iff.1 hc), hall, hnone]
  simp

/-- Letters alone are no match. -/
theorem secret_none_of_letters (h : ∀ c ∈ s, isLetter c = true) : SECRET.find s = none := by
  refine Option.eq_none_iff_forall_ne_some.2 fun res hf => ?_
  obtain ⟨r, t⟩ := res
  obtain ⟨m, x, separator, y, hw, hsep, -⟩ := findSecret_eq_some hf
  obtain ⟨rfl, -⟩ := findWord_eq_some hw
  obtain ⟨c, u, hc, hu, -⟩ := findSeparator_eq_some hsep
  have hcx : c ∈ x := (List.dropWhile_suffix _).subset (hu ▸ List.mem_cons_self)
  rw [not_separator_of_letter (h c (List.mem_append_right _ hcx))] at hc
  cases hc

theorem secret_word (hkey : key.map lower ∈ sensitive) (h : SECRET.find (key ++ unit '"' :: t) = none) :
    SECRET.replaceAll (key ++ unit '"' :: t) = key ++ unit '"' :: SECRET.replaceAll t := by
  have hinside : ∀ k ∈ sensitive, ∀ k' ∈ sensitive, k' <:+: k → k' = k := by decide
  have hletters := letter_of_key hkey
  rw [Pattern.replaceAll_append fun s hs hsuf => ?_, secret_quote,
    Pattern.replaceAll_eq_self fun x _ hsuf => ?_]
  · exact secret_none_of_letters fun c hc => hletters c (hsuf.subset hc)
  · by_cases heq : s = key
    · subst heq
      rw [Pattern.Cut, h, secret_none_of_letters hletters]
      rfl
    · -- No sensitive word is found inside of another.
      refine secret_cut fun m x hw => ?_
      obtain ⟨rfl, hm⟩ := findWord_eq_some hw
      obtain ⟨z, rfl⟩ := hsuf
      have hsame := congrArg List.length (hinside _ hkey _ hm ⟨z.map lower, x.map lower, by simp⟩)
      simp only [List.length_map, List.length_append] at hsame
      obtain rfl := List.eq_nil_of_length_eq_zero (show z.length = 0 by omega)
      exact absurd rfl heq

theorem secret_value (hkey : key.map lower ∈ sensitive) (hq : BehindMember q) :
    SECRET.replaceAll (key ++ unit '"' :: unit ':' :: unit '"' :: (v ++ unit '"' :: q)) =
      key ++ unit '"' :: unit ':' :: unit '"' :: (shown v ++ unit '"' :: SECRET.replaceAll q) := by
  have hfind := findSecret_member hkey (v ++ unit '"' :: q)
  have hcolon : ∀ t, SECRET.replaceAll (unit ':' :: t) = unit ':' :: SECRET.replaceAll t := fun t =>
    Pattern.replaceAll_of_none (secret_none (by simp; decide))
  have hleft : shown v = SECRET.replaceAll v →
    many1 isValueChar ((v ++ unit '"' :: q).dropWhile isBlankOrQuote) = none →
      SECRET.replaceAll (key ++ unit '"' :: unit ':' :: unit '"' :: (v ++ unit '"' :: q)) =
        key ++ unit '"' :: unit ':' :: unit '"' :: (shown v ++ unit '"' :: SECRET.replaceAll q) := by
    intro hshown hnone
    rw [hnone] at hfind
    rw [secret_word hkey hfind, hcolon, secret_quote, hq.secret, hshown]
  by_cases hall : ∀ c ∈ v, isBlankOrQuote c = true
  · refine hleft ?_ ?_
    · simp [shown, List.dropWhile_eq_nil_iff.2 hall, many1]
    · obtain ⟨c, q, rfl, hc⟩ := hq
      have hend : isBlankOrQuote c = false ∧ isValueChar c = false := by rcases hc with rfl | rfl <;> decide
      have hquote : isBlankOrQuote (unit '"') = true := by decide
      rw [List.dropWhile_append_of_pos hall, List.dropWhile_cons_of_pos hquote,
        List.dropWhile_cons_of_neg (by simp [hend.1])]
      exact many1_of_head (by simpa using hend.2)
  · simp only [not_forall, Bool.not_eq_true] at hall
    obtain ⟨c, hc, hcb⟩ := hall
    have happ : many1 isValueChar ((v ++ unit '"' :: q).dropWhile isBlankOrQuote) =
        (many1 isValueChar (v.dropWhile isBlankOrQuote)).map (Prod.map id (· ++ unit '"' :: q)) := by
      rw [(takeWhile_append_of_mem hc hcb).2, many1_append (by simp; decide)]
    cases hv : many1 isValueChar (v.dropWhile isBlankOrQuote) with
    | none => exact hleft (by simp [shown, hv]) (by rw [happ, hv]; rfl)
    | some x =>
      rw [happ, hv, (takeWhile_append_of_mem hc hcb).1] at hfind
      rw [Pattern.replaceAll_of_some (p := SECRET) hfind, Prod.map_snd, hq.secret]
      simp [shown, hv]

theorem cases_of_not_value {c : CodeUnit} (h : isValueChar c = false) :
    isLetter c = false ∧ isLocalChar c = false ∧ c ≠ unit '@' ∧ c ≠ unit '[' := by
  simp only [isValueChar, isSpace, Bool.not_eq_false', Bool.or_eq_true, List.mem_cons, List.not_mem_nil,
    or_false, decide_eq_true_eq] at h
  rcases h with (rfl | rfl | rfl | rfl | rfl | rfl) | rfl | rfl | rfl | rfl | rfl <;> decide

theorem shown_of_value {c : CodeUnit} (hc : isValueChar c = true) :
    shown (c :: v) = units "[REDACTED]" ++ SECRET.replaceAll ((c :: v).dropWhile isValueChar) := by
  have hblank : ¬ isBlankOrQuote c = true := fun h => by simp [not_valueChar_of_blankOrQuote h] at hc
  simp [shown, many1, List.dropWhile_cons_of_neg hblank, List.takeWhile_cons_of_neg hblank,
    List.takeWhile_cons_of_pos hc]

theorem shown_of_not_value {c : CodeUnit} (hc : isValueChar c = false) : ∃ z, shown (c :: v) = c :: z := by
  cases hblank : isBlankOrQuote c with
  | true =>
    rw [shown]
    split
    · exact ⟨_, by rw [List.takeWhile_cons_of_pos hblank]; rfl⟩
    · exact ⟨_, Pattern.replaceAll_of_none (secret_none (by simpa using (cases_of_not_value hc).1))⟩
  | false =>
    have hdrop : (c :: v).dropWhile isBlankOrQuote = c :: v := List.dropWhile_cons_of_neg (by simp [hblank])
    have hnone : many1 isValueChar (c :: v) = none := many1_of_head (by simpa using hc)
    rw [shown, hdrop, hnone]
    exact ⟨_, Pattern.replaceAll_of_none (secret_none (by simpa using (cases_of_not_value hc).1))⟩

theorem secret_ne_nil (h : s ≠ []) : SECRET.replaceAll s ≠ [] := by
  refine Pattern.replaceAll_ne_nil (fun s r t hf => ?_) h
  obtain ⟨key, x, separator, y, -, -, -, rfl, -⟩ := findSecret_eq_some hf
  exact List.append_ne_nil_of_right_ne_nil _ (by decide)

theorem email_ne_nil (h : s ≠ []) : EMAIL.replaceAll s ≠ [] := by
  refine Pattern.replaceAll_ne_nil (fun s r t hf => ?_) h
  obtain ⟨x, -, -, -, rfl⟩ := findEmail_eq_some hf
  decide

theorem email_redacted (z : List CodeUnit) :
    EMAIL.replaceAll (units "[REDACTED]" ++ z) = units "[REDACTED]" ++ EMAIL.replaceAll z := by
  have hclose : EMAIL.Stops (unit ']') := email_stops (by decide) (by decide)
  have hword : EMAIL.replaceAll (units "[REDACTED") = units "[REDACTED" := by decide
  rw [show units "[REDACTED]" ++ z = units "[REDACTED" ++ unit ']' :: z from rfl,
    hclose.replaceAll_append, hword]
  rfl

/-- A value with a terminator leaves something else than a plain one. -/
theorem email_shown (hv : ¬ Plain v) : EMAIL.replaceAll (shown v) ≠ units "[REDACTED]" := by
  match v with
  | [] => exact absurd (fun c hc => absurd hc (List.not_mem_nil)) hv
  | c :: v =>
    cases hc : isValueChar c with
    | true =>
      have hrest : (c :: v).dropWhile isValueChar ≠ [] := fun h => hv (List.dropWhile_eq_nil_iff.1 h)
      rw [shown_of_value hc, email_redacted]
      intro heq
      exact email_ne_nil (secret_ne_nil hrest) (List.append_right_eq_self.1 heq)
    | false =>
      obtain ⟨-, hlocal, hat, hopen⟩ := cases_of_not_value hc
      obtain ⟨z, hz⟩ := shown_of_not_value (v := v) hc
      rw [hz, (email_stops hlocal hat).replaceAll_cons]
      intro heq
      exact hopen (List.cons.inj heq).1

theorem plain_of_scan {o k : List CodeUnit} (h : BEARER.Scan s o k)
    (ho : Plain o) (hk : Plain k) : Plain s := by
  induction h with
  | refl s => exact hk
  | skip _ _ ih => exact List.forall_mem_cons.2 ⟨ho _ List.mem_cons_self,
      ih (fun c hc => ho c (List.mem_cons_of_mem _ hc)) hk⟩
  | hit h _ _ =>
    obtain ⟨m, x, -, rfl, -⟩ := findBearer_eq_some h
    have := ho (unit ' ') (List.mem_append_left _ (by decide))
    exact absurd this (by decide)

/-- The first replacement leaves plain values, and makes no others plain. -/
theorem bearer_value (v : List CodeUnit) : (Plain v → BEARER.replaceAll v = v) ∧
    (Plain (BEARER.replaceAll v) → Plain v) := by
  refine ⟨fun hplain => Pattern.replaceAll_eq_self fun t _ hsuf => ?_,
    fun hplain => plain_of_scan (BEARER.scan_nil v) hplain fun c hc => absurd hc List.not_mem_nil⟩
  refine Option.eq_none_iff_forall_ne_some.2 fun res hf => ?_
  obtain ⟨r, u⟩ := res
  obtain ⟨m, x, hw, -, -, hne⟩ := findBearer_eq_some hf
  obtain ⟨rfl, -⟩ := word_eq_some.1 hw
  obtain ⟨c, hc⟩ := List.exists_mem_of_ne_nil _ hne
  have hspace := List.mem_takeWhile_imp hc
  have hvalue := hplain c (hsuf.subset (List.mem_append_right _ ((List.takeWhile_sublist _).subset hc)))
  simp [isValueChar, hspace] at hvalue

/-! ### The name -/

theorem secret_of_uncovered (hkey : key.map lower ∈ sensitive) (h : Uncovered x key) : ∃ n, ∀ t,
    SECRET.replaceAll (BEARER.replaceAll (x ++ key) ++ unit '"' :: t) = n ++
    SECRET.replaceAll (key ++ unit '"' :: t) := by
  obtain ⟨o, o', hb, hs⟩ := h
  have hself : BEARER.replaceAll key = key :=
    (bearer_value key).1 fun c hc => valueChar_of_letter (letter_of_key hkey c hc)
  refine ⟨o', fun t => ?_⟩
  rw [hb.replaceAll_eq, hself]
  exact (hs.append fun y hy _ => secret_cut_word hkey hy).replaceAll_eq

theorem secret_of_covered (hkey : key.map lower ∈ sensitive) (h : ¬ Uncovered x key) : ∃ n, ∀ t,
    SECRET.replaceAll (BEARER.replaceAll (x ++ key) ++ unit '"' :: t) = n ++ unit '"' ::
    SECRET.replaceAll t := by
  have hself : BEARER.replaceAll key = key :=
    (bearer_value key).1 fun c hc => valueChar_of_letter (letter_of_key hkey c hc)
  rcases Pattern.scan_or (p := BEARER) (fun y r t _ hf => bearer_cover hkey hf)
    x with ⟨o, hb⟩ | ⟨o, y, r, -, hb, hf⟩
  · rcases Pattern.scan_or (p := SECRET) (fun y r t _ hf => secret_cover hkey hf)
      o with ⟨o', hs⟩ | ⟨o', y, r, hy, hs, hf⟩
    · exact absurd ⟨o, o', hb, hs⟩ h
    · refine ⟨o' ++ r, fun t => ?_⟩
      have hcut : ∀ z, z ≠ [] → z ++ (y ++ key) <:+ o ++ key →
          SECRET.Cut (z ++ (y ++ key)) (unit '"' :: t) := by
        intro z hz _
        rw [← List.append_assoc]
        exact secret_cut_word hkey (by simp [hz])
      rw [hb.replaceAll_eq, hself, (hs.append hcut).replaceAll_eq,
        Pattern.replaceAll_of_some ((secret_cut_word hkey hy).of_some hf), List.nil_append, secret_quote,
        List.append_assoc]
  · obtain ⟨m, u, -, rfl, -⟩ := findBearer_eq_some hf
    have hname : BEARER.replaceAll (x ++ key) = o ++ units "Bearer [REDACTED" ++ [unit ']'] := by
      rw [hb.replaceAll_eq, Pattern.replaceAll_of_some hf, Pattern.replaceAll_nil]
      simp [units]
    refine ⟨SECRET.replaceAll (BEARER.replaceAll (x ++ key)), fun t => ?_⟩
    rw [Pattern.replaceAll_append fun s hs hsuf => ?_, secret_quote]
    rw [hname] at hsuf
    have hmem : unit ']' ∈ s := by
      have hlast := hsuf.getLast hs
      rw [List.getLast_concat] at hlast
      exact hlast ▸ List.getLast_mem hs
    exact secret_cut_of_mem (by decide) (by decide) hmem

end parts

/-! ### Independence of the value -/

section independence

variable {a x key q : List CodeUnit} (ha : BeforeMember a) (hkey : key.map lower ∈ sensitive)
include ha hkey

theorem redact_uncovered (hq : BehindMember q) (h : Uncovered x key) : ∃ a' name q', ∀ v,
    redact (some (memberText a (x ++ key) v q)) = some
      (memberText a' name (EMAIL.replaceAll (shown (BEARER.replaceAll v))) q') := by
  obtain ⟨n, hn⟩ := secret_of_uncovered hkey h
  have hq' := hq.replace (p := BEARER) fun c hc => bearer_stops (by rcases hc with rfl | rfl <;> decide)
  refine ⟨EMAIL.replaceAll (SECRET.replaceAll (BEARER.replaceAll a)), EMAIL.replaceAll (n ++ key),
    EMAIL.replaceAll (SECRET.replaceAll (BEARER.replaceAll q)), fun v => ?_⟩
  have hsecret : SECRET.replaceAll (BEARER.replaceAll (memberText a (x ++ key) v q)) =
      memberText (SECRET.replaceAll (BEARER.replaceAll a)) (n ++ key) (shown (BEARER.replaceAll v))
        (SECRET.replaceAll (BEARER.replaceAll q)) := by
    rw [bearer_member, memberText, ha.bearer.secret, hn, secret_value hkey hq', memberText, List.append_assoc]
  simp only [redact]
  rw [hsecret, email_member]

/-- Under a covered word a value of one letter stays as it is. -/
theorem redact_covered (h : ¬ Uncovered x key) : ∃ a' name q', ∀ c ∈ units "xy",
    redact (some (memberText a (x ++ key) [c] q)) = some (memberText a' name [c] q') := by
  obtain ⟨n, hn⟩ := secret_of_covered hkey h
  refine ⟨EMAIL.replaceAll (SECRET.replaceAll (BEARER.replaceAll a)), EMAIL.replaceAll n,
    EMAIL.replaceAll (SECRET.replaceAll (BEARER.replaceAll q)), fun c hc => ?_⟩
  obtain ⟨hb, he, hk⟩ : BEARER.replaceAll [c] = [c] ∧ EMAIL.replaceAll [c] = [c] ∧
      ∀ k ∈ sensitive, k.head? ≠ some (lower c) := by
    obtain rfl | rfl : c = unit 'x' ∨ c = unit 'y' := by simpa [units] using hc
    · decide
    · decide
  have hletter : ∀ t, SECRET.find (c :: t) = none := by
    intro t
    have hword : findWord (c :: t) = none := by
      refine Option.eq_none_iff_forall_ne_some.2 fun res hf => ?_
      obtain ⟨m, u⟩ := res
      obtain ⟨heq, hm⟩ := findWord_eq_some hf
      match m with
      | [] => exact absurd hm (by decide)
      | d :: m => exact hk _ hm (by rw [(List.cons.inj heq).1]; rfl)
    show findSecret (c :: t) = none
    rw [findSecret, hword]
    rfl
  have hcolon : ∀ t, SECRET.replaceAll (unit ':' :: t) = unit ':' :: SECRET.replaceAll t := fun t =>
    Pattern.replaceAll_of_none (secret_none (by simp; decide))
  have hsecret : SECRET.replaceAll (BEARER.replaceAll (memberText a (x ++ key) [c] q)) =
      memberText (SECRET.replaceAll (BEARER.replaceAll a)) n
      [c] (SECRET.replaceAll (BEARER.replaceAll q)) := by
    rw [bearer_member, memberText, ha.bearer.secret, hn, hcolon, secret_quote, hb, List.singleton_append,
      Pattern.replaceAll_of_none (hletter _), secret_quote]
    rfl
  simp only [redact]
  rw [hsecret, email_member, he]

end independence

theorem memberText_inj {a name v w q : List CodeUnit}
    (h : memberText a name v q = memberText a name w q) : v = w := by
  simpa [memberText] using h

theorem not_blank_member {a name v q : List CodeUnit} : (memberText a name v q).all isWhitespace = false := by
  have hquote : isWhitespace (unit '"') = false := by decide
  simp [memberText, hquote]

/-- Of a sensitive member the value is not to be told from the plain ones, and neither is it in what is
persisted, exactly if it is plain itself and nothing in the name covers the sensitive word at its end. -/
theorem redact_member {a x key q v : List CodeUnit} (ha : BeforeMember a) (hkey : key.map lower ∈ sensitive)
    (hq : BehindMember q) (hv : v ≠ []) :
    ((∀ w, w ≠ [] → StringBody w → Plain w →
      redact (some (memberText a (x ++ key) v q)) = redact (some (memberText a (x ++ key) w q))) ↔
      Uncovered x key ∧ Plain v) ∧
    (Uncovered x key → Plain v → ∀ w, w ≠ [] → Plain w →
      JobStore.abbreviate (some (memberText a (x ++ key) v q)) = JobStore.abbreviate
        (some (memberText a (x ++ key) w q)) ∧
      OutboxStore.abbreviate (some (memberText a (x ++ key) v q)) = OutboxStore.abbreviate
        (some (memberText a (x ++ key) w q))) := by
  have hbody : ∀ c ∈ units "xy", StringBody [c] ∧ Plain [c] := by
    intro c hc
    obtain ⟨hchar, hvalue⟩ : (32 ≤ c.toNat ∧ c ≠ unit '"' ∧ c ≠ unit '\\') ∧ isValueChar c = true := by
      obtain rfl | rfl : c = unit 'x' ∨ c = unit 'y' := by simpa [units] using hc
      · decide
      · decide
    exact ⟨.char hchar .nil, by simpa [Plain] using hvalue⟩
  have hsame : Uncovered x key → Plain v → ∀ w, w ≠ [] → Plain w →
      redact (some (memberText a (x ++ key) v q)) = redact (some (memberText a (x ++ key) w q)) := by
    intro hun hplain w hw hwplain
    obtain ⟨a', name, q', hall⟩ := redact_uncovered ha hkey hq hun
    rw [hall, hall, (bearer_value v).1 hplain, (bearer_value w).1 hwplain, shown_of_plain hv hplain,
      shown_of_plain hw hwplain]
  refine ⟨⟨fun h => ?_, fun h w hw _ hplain => hsame h.1 h.2 w hw hplain⟩, fun hun hplain w hw hwplain => ?_⟩
  · by_cases hun : Uncovered x key
    · refine ⟨hun, by_contra fun hplain => ?_⟩
      obtain ⟨a', name, q', hall⟩ := redact_uncovered ha hkey hq hun
      have hx := hbody (unit 'x') (by decide)
      have heq := h _ (List.cons_ne_nil _ _) hx.1 hx.2
      rw [hall, hall, (bearer_value _).1 hx.2, shown_of_plain (List.cons_ne_nil _ _) hx.2] at heq
      have hval := memberText_inj (Option.some.inj heq)
      rw [show EMAIL.replaceAll (units "[REDACTED]") = units "[REDACTED]" by decide] at hval
      exact email_shown (fun hp => hplain ((bearer_value v).2 hp)) hval
    · obtain ⟨a', name, q', hall⟩ := redact_covered ha hkey hun
      have hx := hbody (unit 'x') (by decide)
      have hy := hbody (unit 'y') (by decide)
      have heq := (h _ (List.cons_ne_nil _ _) hx.1 hx.2).symm.trans (h _ (List.cons_ne_nil _ _) hy.1 hy.2)
      rw [hall _ (by decide), hall _ (by decide)] at heq
      exact absurd (memberText_inj (Option.some.inj heq)) (by decide)
  · have heq := hsame hun hplain w hw hwplain
    simp [JobStore.abbreviate, OutboxStore.abbreviate, not_blank_member, heq]

theorem before_brace : BeforeMember (units "\x7b") := ⟨[], unit '\x7b', [], rfl, .inl rfl, by simp⟩

theorem behind_brace : BehindMember (units "\x7d") := ⟨unit '\x7d', [], rfl, .inr rfl⟩

theorem redact_member_password :
    redact (some (memberText (units "\x7b") ([] ++ units "password") (units "hunter2") (units "\x7d"))) =
      redact (some (memberText (units "\x7b") ([] ++ units "password") (units "xyzzy") (units "\x7d"))) :=
  (redact_member before_brace (by decide) behind_brace (by decide)).1.2 ⟨⟨[], [], .refl _, .refl _⟩,
    List.all_eq_true.1 (by decide)⟩ (units "xyzzy") (by decide)
    (.char (by decide) (.char (by decide) (.char (by decide) (.char (by decide) (.char (by decide) .nil)))))
    (List.all_eq_true.1 (by decide))

/-- Behind a space the value of a password is left as it is. -/
theorem redact_member_spaced : BeforeMember (units "\x7b") ∧ BehindMember (units "\x7d") ∧
    units "password" ∈ sensitive ∧ StringBody (units "a b") ∧ StringBody (units "a c") ∧
    redact (some (memberText (units "\x7b") (units "password") (units "a b") (units "\x7d"))) =
      some (units "\x7b\"password\":\"[REDACTED] b\"\x7d") ∧
    redact (some (memberText (units "\x7b") (units "password") (units "a b") (units "\x7d"))) ≠
      redact (some (memberText (units "\x7b") (units "password") (units "a c") (units "\x7d"))) :=
  ⟨before_brace, behind_brace, by decide, .char (by decide) (.char (by decide) (.char (by decide) .nil)),
    .char (by decide) (.char (by decide) (.char (by decide) .nil)), by decide +kernel, by decide +kernel⟩

end GManager.SensitiveDataSanitizer
