import GManager.AuditDiff
import GManager.Delimited
import Mathlib.Algebra.BigOperators.Group.Finset.Basic
import Mathlib.Data.List.Nodup

/-!
# The changes tell everything

What `walk` adds is real, apart and complete (`Tells`): each change shows what its path leads to on
both sides, no change lies within another, and wherever the two sides differ there is a change on
the way or, where a whole object has come or gone, below. The paths are told apart by their texts,
as the names in them are escaped.
-/

namespace GManager.Audit

open ChangeValue

variable {ν : Type}

/-! ### Paths as texts -/

section paths

theorem isDigit_of_mem_toDigits (i : ℕ) : ∀ c ∈ Nat.toDigits 10 i, c.isDigit = true :=
  fun _ hc => Nat.isDigit_of_mem_toDigits (by decide) (by decide) hc

theorem toNat_of_mem_toDigits (i : ℕ) : ∀ c ∈ Nat.toDigits 10 i, c.toNat < 65536 := by
  intro c hc
  have hdigit := isDigit_of_mem_toDigits i c hc
  rw [Char.isDigit_iff_toNat] at hdigit
  exact lt_of_le_of_lt hdigit.2 (by decide)

theorem decimal_injective : Function.Injective decimal := by
  intro i j h
  have heq := map_unit_inj (toNat_of_mem_toDigits i) (toNat_of_mem_toDigits j) h
  rw [← Nat.ofDigitChars_ten_toDigits (n := i), heq, Nat.ofDigitChars_ten_toDigits]

/-- `pointer` at one code unit. -/
def escape (c : CodeUnit) : Text :=
  if c = unit '~' then units "~0" else if c = unit '/' then units "~1" else [c]

theorem pointer_eq (key : Text) : pointer key = key.flatMap escape := by
  unfold pointer replaceUnit
  rw [List.flatMap_assoc]
  refine List.flatMap_congr fun c _ => ?_
  unfold escape
  split_ifs with h₁ h₂
  · decide
  · simp [h₂]
  · simp [h₂]

theorem escape_cons (c : CodeUnit) : ∃ x xs, escape c = x :: xs := by
  unfold escape
  split_ifs
  · exact ⟨_, _, rfl⟩
  · exact ⟨_, _, rfl⟩
  · exact ⟨_, _, rfl⟩

theorem escape_append_inj {c d : CodeUnit} {s t : Text} (h : escape c ++ s = escape d ++ t) :
    c = d ∧ s = t := by
  have htilde : units "~0" = [unit '~', unit '0'] := rfl
  have hslash : units "~1" = [unit '~', unit '1'] := rfl
  have hne : unit '0' ≠ unit '1' := by decide
  unfold escape at h
  rw [htilde, hslash] at h
  split_ifs at h with hc hd hd' hc' hd hd' hd hd'
  all_goals simp only [List.cons_append, List.nil_append, List.cons.injEq] at h
  · exact ⟨hc.trans hd.symm, h.2.2⟩
  · exact absurd h.2.1 hne
  · exact absurd h.1.symm hd
  · exact absurd h.2.1.symm hne
  · exact ⟨hc'.trans hd'.symm, h.2.2⟩
  · exact absurd h.1.symm hd
  · exact absurd h.1 hc
  · exact absurd h.1 hc
  · exact h

theorem pointer_injective : Function.Injective pointer := by
  intro s t h
  rw [pointer_eq, pointer_eq] at h
  induction s generalizing t with
  | nil =>
    cases t with
    | nil => rfl
    | cons d t =>
      obtain ⟨x, xs, hx⟩ := escape_cons d
      simp [hx] at h
  | cons c s ih =>
    cases t with
    | nil =>
      obtain ⟨x, xs, hx⟩ := escape_cons c
      simp [hx] at h
    | cons d t =>
      rw [List.flatMap_cons, List.flatMap_cons] at h
      obtain ⟨rfl, hst⟩ := escape_append_inj h
      rw [ih hst]

theorem slash_not_mem_segment (t : Token) : unit '/' ∉ t.segment := by
  cases t with
  | key name =>
    show unit '/' ∉ pointer name
    rw [pointer_eq, List.mem_flatMap]
    rintro ⟨c, -, hc⟩
    unfold escape at hc
    split_ifs at hc with h₁ h₂
    · exact absurd hc (by decide)
    · exact absurd hc (by decide)
    · exact h₂ (List.mem_singleton.1 hc).symm
  | index i =>
    intro hmem
    obtain ⟨c, hc, hslash⟩ := List.mem_map.1 hmem
    have hdigit := isDigit_of_mem_toDigits i c hc
    simp only [Char.isDigit, Bool.and_eq_true, decide_eq_true_eq, ge_iff_le, UInt32.le_iff_toNat_le] at hdigit
    have hnat := congrArg UInt16.toNat hslash
    simp only [unit, UInt32.toNat_toUInt16] at hnat
    have hlow : 48 ≤ c.val.toNat := hdigit.1
    have hhigh : c.val.toNat ≤ 57 := hdigit.2
    have hunit : ('/' : Char).val.toNat = 47 := rfl
    omega

/-- The text of a path tells its segments. -/
theorem segments_of_pathText {ts us : List Token} (h : pathText ts = pathText us) :
    ts.map Token.segment = us.map Token.segment := by
  induction ts generalizing us with
  | nil =>
    cases us with
    | nil => rfl
    | cons u us => cases h
  | cons t ts ih =>
    cases us with
    | nil => cases h
    | cons u us =>
      have hends : ∀ vs : List Token, Ends (fun c : CodeUnit => c ≠ unit '/') (pathText vs) := by
        intro vs
        cases vs with
        | nil => exact .nil
        | cons v vs => exact .cons fun hv => hv rfl
      have hinner : ∀ t : Token, ∀ c ∈ t.segment, c ≠ unit '/' := by
        rintro t c hc rfl
        exact slash_not_mem_segment t hc
      obtain ⟨-, h⟩ := List.cons.inj h
      obtain ⟨hseg, hrest⟩ := Ends.word (hinner t) (hinner u) (hends ts) (hends us) h
      rw [List.map_cons, List.map_cons, hseg, ih hrest]

end paths

/-! ### What stands at a path -/

/-- What can be told of a value without looking into it. -/
inductive Kind (ν : Type)
  | absent
  | scalar (value : Scalar ν)
  | array
  | object
  deriving DecidableEq, Repr

def kind (v : ChangeValue ν) : Kind ν :=
  match v with
  | none => .absent
  | some (.scalar value) => .scalar value
  | some (.array _) => .array
  | some (.object _) => .object

/-- No object names a member twice. -/
inductive Distinct : JsonValue ν → Prop
  | scalar (value : Scalar ν) : Distinct (.scalar value)
  | array {items : List (JsonValue ν)} (hitems : ∀ v ∈ items, Distinct v) : Distinct (.array items)
  | object {members : List (Text × JsonValue ν)} (hnames : (members.map Prod.fst).Nodup)
      (hmembers : ∀ m ∈ members, Distinct m.2) : Distinct (.object members)

section values

variable {left right v : ChangeValue ν} {t : Token} {ts : List Token}

theorem get_cons (v : ChangeValue ν) (t : Token) (ts : List Token) : v.get (t :: ts) = (v.at? t).get ts := rfl

theorem kind_eq_absent : kind v = .absent ↔ v = none := by
  unfold kind
  split <;> simp

@[simp]
theorem kind_none : kind (none : ChangeValue ν) = .absent := rfl

theorem get_none (ts : List Token) : get (none : ChangeValue ν) ts = none := by
  induction ts with
  | nil => rfl
  | cons t ts ih => exact ih

theorem Distinct.at? (h : ∀ x ∈ v, Distinct x) (t : Token) : ∀ x ∈ v.at? t, Distinct x := by
  intro x hx
  unfold ChangeValue.at? at hx
  split at hx
  · obtain ⟨m, hm, rfl⟩ := Option.map_eq_some_iff.1 hx
    cases h _ rfl with
    | object _ hmembers => exact hmembers m (List.mem_of_find?_eq_some hm)
  · cases h _ rfl with
    | array hitems => exact hitems x (List.mem_of_getElem? hx)
  · cases hx

theorem eq_of_identical [DecidableEq ν] (h : identical left right = true) : left = right := by
  unfold identical at h
  split at h
  · rfl
  · rw [of_decide_eq_true h]
  · cases h

theorem isObject_iff : v.isObject = true ↔ kind v = .object := by
  unfold ChangeValue.isObject kind
  split <;> split <;> simp_all

theorem at?_key {name : Text} : v.at? (.key name) ≠ none ↔ name ∈ v.members.map Prod.fst := by
  rcases v with _ | x
  · simp [ChangeValue.at?, ChangeValue.members]
  · cases x <;> simp [ChangeValue.at?, ChangeValue.members]

theorem at?_index_of_object {i : ℕ} (h : kind v = .object) : v.at? (.index i) = none := by
  unfold kind at h
  split at h <;> first | rfl | cases h

theorem mem_keys {name : Text} :
    name ∈ keys left right ↔ left.at? (.key name) ≠ none ∨ right.at? (.key name) ≠ none := by
  rw [at?_key, at?_key, keys, List.mem_append, List.mem_filter]
  by_cases h : name ∈ left.members.map Prod.fst <;> simp [h]

theorem nodup_keys (hleft : ∀ x ∈ left, Distinct x) (hright : ∀ x ∈ right, Distinct x) :
    (keys left right).Nodup := by
  have hnames : ∀ v : ChangeValue ν, (∀ x ∈ v, Distinct x) → (v.members.map Prod.fst).Nodup := by
    intro v hv
    unfold ChangeValue.members
    split
    · cases hv _ rfl with
      | object hnames _ => exact hnames
    · exact List.nodup_nil
  refine List.nodup_append.2 ⟨hnames left hleft, (hnames right hright).filter _, ?_⟩
  rintro name hmem _ hmem' rfl
  simpa [hmem] using (List.mem_filter.1 hmem').2

/-- The comparison goes on in two objects, in one that has come or gone, or in two arrays. -/
theorem children_eq_some (h : children left right = some ts) :
    ((kind left = .object ∧ (kind right = .object ∨ kind right = .absent) ∨ kind right = .object ∧
      kind left = .absent) ∧ ts = (keys left right).map .key ∧ ts ≠ []) ∨
    ∃ xs ys, left = some (.array xs) ∧ right = some (.array ys) ∧
      ts = (List.range (max xs.length ys.length)).map .index := by
  unfold children at h
  split at h
  · rename_i hobject
    obtain ⟨hne, h⟩ := Option.ite_none_right_eq_some.1 h
    cases h
    refine .inl ⟨?_, rfl, by simpa using hne⟩
    rcases hobject with ⟨hl, hr | hr⟩ | ⟨hr, hl⟩
    · exact .inl ⟨isObject_iff.1 hl, .inl (isObject_iff.1 hr)⟩
    · exact .inl ⟨isObject_iff.1 hl, .inr (kind_eq_absent.2 (Option.isNone_iff_eq_none.1 hr))⟩
    · exact .inr ⟨isObject_iff.1 hr, kind_eq_absent.2 (Option.isNone_iff_eq_none.1 hl)⟩
  · split at h
    · cases h
      exact .inr ⟨_, _, rfl, rfl, rfl⟩
    · cases h

theorem nodup_children (h : children left right = some ts) (hleft : ∀ x ∈ left, Distinct x)
    (hright : ∀ x ∈ right, Distinct x) : (ts.map Token.segment).Nodup := by
  rcases children_eq_some h with ⟨-, rfl, -⟩ | ⟨xs, ys, -, -, rfl⟩
  · rw [List.map_map]
    exact List.Nodup.map pointer_injective (nodup_keys hleft hright)
  · rw [List.map_map]
    exact List.Nodup.map decimal_injective List.nodup_range

theorem mem_children (h : children left right = some ts) : t ∈ ts ↔ left.at? t ≠ none ∨
    right.at? t ≠ none := by
  rcases children_eq_some h with ⟨hkind, rfl, -⟩ | ⟨xs, ys, rfl, rfl, rfl⟩
  · cases t with
    | key name =>
      rw [← mem_keys]
      simp
    | index i =>
      have hnone : ∀ v : ChangeValue ν, kind v = .object ∨ kind v = .absent → v.at? (.index i) = none := by
        rintro v (hv | hv)
        · exact at?_index_of_object hv
        · rw [kind_eq_absent.1 hv]
          rfl
      have hl := hnone left (by rcases hkind with ⟨hl, -⟩ | ⟨-, hl⟩ <;> simp [hl])
      have hr := hnone right (by rcases hkind with ⟨-, hr⟩ | ⟨hr, -⟩ <;> simp [hr])
      simp [hl, hr]
  · cases t with
    | key name => simp [ChangeValue.at?]
    | index i =>
      simp [ChangeValue.at?]

theorem keys_eq_nil : keys left right = [] ↔ left.members = [] ∧ right.members = [] := by
  rw [keys, List.append_eq_nil_iff, List.map_eq_nil_iff]
  refine and_congr_right fun h => ?_
  simp [h]

theorem at?_of_members_eq_nil (hobject : v.isObject = true) (h : v.members = []) (t : Token) :
    v.at? t = none := by
  cases t with
  | key name =>
    by_contra hne
    simpa [h] using at?_key.1 hne
  | index i => exact at?_index_of_object (isObject_iff.1 hobject)

/-- Where the comparison does not go on, both are empty objects, or the kinds differ. -/
theorem children_eq_none [DecidableEq ν] (h : children left right = none)
    (hidentical : identical left right = false) : bothEmpty left right = true ∧ kind left = kind right ∧
    (∀ t, left.at? t = none ∧ right.at? t = none) ∨
      bothEmpty left right = false ∧ kind left ≠ kind right := by
  by_cases hboth : left.isObject = true ∧ right.isObject = true
  · have hempty : left.members = [] ∧ right.members = [] := by
      rw [← keys_eq_nil]
      by_contra hne
      simp [children, hboth.1, hboth.2, hne] at h
    refine .inl ⟨by simp [bothEmpty, hboth, hempty], ?_, fun t => ⟨?_, ?_⟩⟩
    · rw [isObject_iff.1 hboth.1, isObject_iff.1 hboth.2]
    · exact at?_of_members_eq_nil hboth.1 hempty.1 t
    · exact at?_of_members_eq_nil hboth.2 hempty.2 t
  · refine .inr ⟨by simp [bothEmpty]; tauto, fun hkind => ?_⟩
    rcases left with _ | x <;> rcases right with _ | y
    · cases hidentical
    · cases y <;> cases hkind
    · cases x <;> cases hkind
    · cases x <;> cases y <;> simp [kind] at hkind
      · simp [identical, hkind] at hidentical
      · simp [children, ChangeValue.isObject] at h
      · exact hboth ⟨rfl, rfl⟩

/-- Where the kinds differ and the comparison goes on, an object has come or gone. -/
theorem children_of_kind_ne (h : children left right = some ts) (hkind : kind left ≠ kind right) :
    (kind left = .object ∧ kind right = .absent ∨ kind left = .absent ∧ kind right = .object) ∧ ts ≠ [] := by
  rcases children_eq_some h with ⟨⟨hl, hr | hr⟩ | ⟨hr, hl⟩, -, hne⟩ | ⟨xs, ys, rfl, rfl, -⟩
  · exact absurd (hl.trans hr.symm) hkind
  · exact ⟨.inl ⟨hl, hr⟩, hne⟩
  · exact ⟨.inr ⟨hl, hr⟩, hne⟩
  · exact absurd rfl hkind

end values

/-! ### What the walk adds -/

/-- A path, and what stands there on both sides. -/
abbrev Difference (ν : Type) := List Token × ChangeValue ν × ChangeValue ν

/-- The differences between two values. -/
structure Tells (left right : ChangeValue ν) (ds : List (Difference ν)) : Prop where
  real : ∀ d ∈ ds, d.2.1 = left.get d.1 ∧ d.2.2 = right.get d.1 ∧ kind d.2.1 ≠ kind d.2.2
  apart : ds.Pairwise fun d d' => ¬ d.1.map Token.segment <+: d'.1.map Token.segment ∧
    ¬ d'.1.map Token.segment <+: d.1.map Token.segment
  covers : ∀ ts, kind (left.get ts) ≠ kind (right.get ts) → (∃ d ∈ ds, d.1 <+: ts) ∨
    (kind (left.get ts) = .object ∧ kind (right.get ts) = .absent ∨
      kind (left.get ts) = .absent ∧ kind (right.get ts) = .object) ∧ ∃ d ∈ ds, ts <+: d.1

theorem Tells.nil {v : ChangeValue ν} : Tells v v [] :=
  ⟨fun _ hd => absurd hd List.not_mem_nil, List.Pairwise.nil, fun _ h => absurd rfl h⟩

theorem Tells.of_leaf {left right : ChangeValue ν} (hkind : kind left = kind right)
    (h : ∀ t, left.at? t = none ∧ right.at? t = none) : Tells left right [] := by
  refine ⟨fun _ hd => absurd hd List.not_mem_nil, List.Pairwise.nil, fun ts hts => absurd ?_ hts⟩
  cases ts with
  | nil => exact hkind
  | cons t ts => rw [get_cons, get_cons, (h t).1, (h t).2]

theorem Tells.single {left right : ChangeValue ν} (h : kind left ≠ kind right) :
    Tells left right [([], left, right)] := by
  refine ⟨fun d hd => ?_, List.pairwise_singleton _ _, fun _ _ =>
    .inl ⟨_, List.mem_singleton.2 rfl, List.nil_prefix⟩⟩
  rw [List.mem_singleton.1 hd]
  exact ⟨rfl, rfl, h⟩

/-- Seen from one step above. -/
def Difference.under (t : Token) (d : Difference ν) : Difference ν := (t :: d.1, d.2)

/-- The differences below each of the steps. -/
inductive Below (left right : ChangeValue ν) : List Token → List (Difference ν) → Prop
  | nil : Below left right [] []
  | cons {t : Token} {ts : List Token} {ds ds' : List (Difference ν)}
      (ht : Tells (left.at? t) (right.at? t) ds) (hts : Below left right ts ds') :
      Below left right (t :: ts) (ds.map (Difference.under t) ++ ds')

namespace Below

variable {left right : ChangeValue ν} {t : Token} {ts us : List Token} {ds : List (Difference ν)}
  {d : Difference ν}

theorem mem (h : Below left right ts ds) (hd : d ∈ ds) :
    ∃ t ∈ ts, ∃ ds', Tells (left.at? t) (right.at? t) ds' ∧ ∃ d' ∈ ds', d = d'.under t := by
  induction h with
  | nil => cases hd
  | cons ht hts ih =>
    rcases List.mem_append.1 hd with hd | hd
    · obtain ⟨d', hd', rfl⟩ := List.mem_map.1 hd
      exact ⟨_, List.mem_cons_self, _, ht, d', hd', rfl⟩
    · obtain ⟨t, hmem, hrest⟩ := ih hd
      exact ⟨t, List.mem_cons_of_mem _ hmem, hrest⟩

theorem tells (h : Below left right ts ds) (ht : t ∈ ts) :
    ∃ ds', Tells (left.at? t) (right.at? t) ds' ∧ ∀ d ∈ ds', d.under t ∈ ds := by
  induction h with
  | nil => cases ht
  | cons hhead hts ih =>
    rcases List.mem_cons.1 ht with rfl | ht
    · exact ⟨_, hhead, fun d hd => List.mem_append_left _ (List.mem_map_of_mem hd)⟩
    · obtain ⟨ds', htells, hmem⟩ := ih ht
      exact ⟨ds', htells, fun d hd => List.mem_append_right _ (hmem d hd)⟩

theorem apart (h : Below left right ts ds) (hnodup : (ts.map Token.segment).Nodup) :
    ds.Pairwise fun d d' => ¬ d.1.map Token.segment <+: d'.1.map Token.segment ∧
      ¬ d'.1.map Token.segment <+: d.1.map Token.segment := by
  induction h with
  | nil => exact List.Pairwise.nil
  | @cons t ts ds ds' ht hts ih =>
    rw [List.map_cons, List.nodup_cons] at hnodup
    refine List.pairwise_append.2 ⟨?_, ih hnodup.2, fun d hd d' hd' => ?_⟩
    · refine List.pairwise_map.2 (ht.apart.imp fun hapart => ?_)
      simpa [Difference.under, List.cons_prefix_cons] using hapart
    · obtain ⟨e, -, rfl⟩ := List.mem_map.1 hd
      obtain ⟨t', ht', -, -, e', -, rfl⟩ := hts.mem hd'
      have hne : t.segment ≠ t'.segment := fun heq => hnodup.1 (heq ▸ List.mem_map_of_mem ht')
      simp [Difference.under, List.cons_prefix_cons, hne, hne.symm]

/-- The differences below all steps that lead anywhere are all there are. -/
theorem all (h : Below left right ts ds) (hchildren : children left right = some ts)
    (hnodup : (ts.map Token.segment).Nodup) : Tells left right ds := by
  refine ⟨fun d hd => ?_, h.apart hnodup, fun us hus => ?_⟩
  · obtain ⟨t, -, ds', htells, d', hd', rfl⟩ := h.mem hd
    exact htells.real d' hd'
  · cases us with
    | nil =>
      -- an object has come or gone; so has each of its members
      obtain ⟨hkinds, hne⟩ := children_of_kind_ne hchildren hus
      refine .inr ⟨hkinds, ?_⟩
      obtain ⟨t, ht⟩ := List.exists_mem_of_ne_nil _ hne
      obtain ⟨ds', htells, hmem⟩ := h.tells ht
      have hdiffer : kind (left.at? t) ≠ kind (right.at? t) := by
        have hpresent := (mem_children hchildren).1 ht
        rcases hkinds with ⟨-, hr⟩ | ⟨hl, -⟩
        · have hgone : right.at? t = none := by rw [kind_eq_absent.1 hr]; rfl
          rw [hgone, kind_none, Ne, kind_eq_absent]
          simpa [hgone] using hpresent
        · have hnew : left.at? t = none := by rw [kind_eq_absent.1 hl]; rfl
          rw [hnew, kind_none, Ne, eq_comm, kind_eq_absent]
          simpa [hnew] using hpresent
      rcases htells.covers [] hdiffer with ⟨d, hd, -⟩ | ⟨-, d, hd, -⟩
      · exact ⟨_, hmem d hd, List.nil_prefix⟩
      · exact ⟨_, hmem d hd, List.nil_prefix⟩
    | cons t us =>
      have ht : t ∈ ts := by
        rw [mem_children hchildren]
        rw [get_cons, get_cons] at hus
        by_contra hnone
        rw [not_or, not_not, not_not] at hnone
        rw [hnone.1, hnone.2] at hus
        exact hus rfl
      obtain ⟨ds', htells, hmem⟩ := h.tells ht
      rcases htells.covers us hus with ⟨d, hd, hprefix⟩ | ⟨hkinds, d, hd, hprefix⟩
      · exact .inl ⟨_, hmem d hd, List.cons_prefix_cons.2 ⟨rfl, hprefix⟩⟩
      · exact .inr ⟨hkinds, _, hmem d hd, List.cons_prefix_cons.2 ⟨rfl, hprefix⟩⟩

end Below

/-- A change shows a difference below the path where the walk began. -/
def Shows (path : Text) (c : AuditChange ν) (d : Difference ν) : Prop :=
  c.path = path ++ pathText d.1 ∧ c.before = d.2.1 ∧ c.after = d.2.2

theorem Shows.under {path : Text} {t : Token} {c : AuditChange ν} {d : Difference ν}
    (h : Shows (path ++ unit '/' :: t.segment) c d) :
    Shows path c (d.under t) := by
  obtain ⟨hpath, hvalues⟩ := h
  refine ⟨?_, hvalues⟩
  rw [hpath, Difference.under, pathText, pathText, List.flatMap_cons, List.append_assoc]

theorem paths_of_shows {cs : List (AuditChange ν)} {ds : List (Difference ν)}
    (h : List.Forall₂ (Shows []) cs ds) : cs.map AuditChange.path = ds.map fun d => pathText d.1 := by
  induction h with
  | nil => rfl
  | cons hshow _ ih => rw [List.map_cons, List.map_cons, hshow.1, List.nil_append, ih]

/-- Different paths have different texts. -/
theorem nodup_paths {cs : List (AuditChange ν)} {ds : List (Difference ν)} {left right : ChangeValue ν}
    (hshows : List.Forall₂ (Shows []) cs ds) (htells : Tells left right ds) :
    (cs.map AuditChange.path).Nodup := by
  rw [paths_of_shows hshows, List.Nodup, List.pairwise_map]
  refine htells.apart.imp fun hapart heq => hapart.1 ?_
  rw [segments_of_pathText heq]

section walks

variable [DecidableEq ν] {left right : ChangeValue ν} {path label : Text} {s s' : Walked ν} {levels : ℕ}

/-- What a walk has added tells the differences between the two values. -/
def Adds (left right : ChangeValue ν) (path : Text) (s s' : Walked ν) : Prop :=
  ∃ new ds, s'.changes = s.changes ++ new ∧ List.Forall₂ (Shows path) new ds ∧ Tells left right ds

theorem walk_children {ts : List Token}
    (hwalk : ∀ t ∈ ts, ∀ path label s s', walk levels (left.at? t) (right.at? t) path label s = some s' →
      Adds (left.at? t) (right.at? t) path s s')
    (h : ts.foldlM (fun s t =>
      walk levels (left.at? t) (right.at? t) (path ++ unit '/' :: t.segment) (childLabel label t) s)
        s = some s') :
    ∃ new ds, s'.changes = s.changes ++ new ∧ List.Forall₂ (Shows path) new ds ∧ Below left right ts ds := by
  induction ts generalizing s with
  | nil =>
    cases h
    exact ⟨[], [], (List.append_nil _).symm, .nil, .nil⟩
  | cons t ts ih =>
    rw [List.foldlM_cons] at h
    obtain ⟨s₁, hfirst, hrest⟩ := Option.bind_eq_some_iff.1 h
    obtain ⟨new, ds, hnew, hshows, htells⟩ := hwalk t List.mem_cons_self _ _ _ _ hfirst
    obtain ⟨new', ds', hnew', hshows', hbelow⟩ := ih (fun u hu => hwalk u (List.mem_cons_of_mem _ hu)) hrest
    refine ⟨new ++ new', ds.map (Difference.under t) ++ ds', ?_, ?_, .cons htells hbelow⟩
    · rw [hnew', hnew, List.append_assoc]
    · refine List.rel_append ?_ hshows'
      exact List.forall₂_map_right_iff.2 (hshows.imp fun _ _ => Shows.under)

theorem walk_adds (hleft : ∀ x ∈ left, Distinct x) (hright : ∀ x ∈ right, Distinct x)
    (h : walk levels left right path label s = some s') : Adds left right path s s' := by
  induction levels generalizing left right path label s s' with
  | zero => cases h
  | succ levels ih =>
    rw [walk] at h
    split at h
    · cases h
    split at h
    · -- nothing differs
      rename_i hidentical
      cases h
      rw [eq_of_identical hidentical]
      exact ⟨[], [], (List.append_nil _).symm, .nil, .nil⟩
    rename_i hidentical
    rw [Bool.not_eq_true] at hidentical
    split at h
    · rename_i ts hchildren
      obtain ⟨new, ds, hnew, hshows, hbelow⟩ :=
        walk_children (fun t _ _ _ _ _ ht => ih (Distinct.at? hleft t) (Distinct.at? hright t) ht) h
      exact ⟨new, ds, hnew, hshows, hbelow.all hchildren (nodup_children hchildren hleft hright)⟩
    · rename_i hchildren
      rcases children_eq_none hchildren hidentical with ⟨hempty, hkind, hat⟩ | ⟨hempty, hkind⟩
      · rw [if_pos hempty] at h
        cases h
        exact ⟨[], [], (List.append_nil _).symm, .nil, Tells.of_leaf hkind hat⟩
      · rw [hempty] at h
        cases h
        exact ⟨_, _, rfl, .cons ⟨(List.append_nil _).symm, rfl, rfl⟩ .nil, .single hkind⟩

end walks

/-! ### The limits -/

section limits

/-- Where a walk may stop: at its beginning, and where one of the two values has something. -/
def Place (left right : ChangeValue ν) (ts : List Token) : Prop :=
  ts = [] ∨ left.get ts ≠ none ∨ right.get ts ≠ none

/-- The rests of the places that begin with `t`. -/
def below (places : Finset (List Token)) (t : Token) : Finset (List Token) :=
  (places.filter fun us => us.head? = some t).image List.tail

theorem mem_below {places : Finset (List Token)} {t : Token} {ts : List Token} : ts ∈ below places t ↔
    t :: ts ∈ places := by
  rw [below, Finset.mem_image]
  constructor
  · rintro ⟨us, hus, rfl⟩
    obtain ⟨hmem, hhead⟩ := Finset.mem_filter.1 hus
    cases us with
    | nil => cases hhead
    | cons u us =>
      cases hhead
      exact hmem
  · intro h
    exact ⟨t :: ts, Finset.mem_filter.2 ⟨h, rfl⟩, rfl⟩

theorem sum_card_below_lt {places : Finset (List Token)} {ts : List Token} (hnil : [] ∈ places)
    (hnodup : ts.Nodup) : (ts.map fun t => (below places t).card).sum < places.card := by
  have hdisjoint : (ts.toFinset : Set Token).PairwiseDisjoint fun t =>
    (below places t).image (List.cons t) := by
    intro t _ u _ htu
    rw [Function.onFun, Finset.disjoint_left]
    intro us hus hus'
    obtain ⟨_, -, rfl⟩ := Finset.mem_image.1 hus
    obtain ⟨_, -, heq⟩ := Finset.mem_image.1 hus'
    exact htu (List.cons.inj heq).1.symm
  calc (ts.map fun t => (below places t).card).sum
      = ∑ t ∈ ts.toFinset, ((below places t).image (List.cons t)).card := by
        rw [← List.sum_toFinset _ hnodup]
        exact Finset.sum_congr rfl fun t _ => (Finset.card_image_of_injective _ List.cons_injective).symm
    _ = (ts.toFinset.biUnion fun t => (below places t).image (List.cons t)).card :=
      (Finset.card_biUnion hdisjoint).symm
    _ ≤ (places.erase []).card := by
        refine Finset.card_le_card fun us hus => ?_
        obtain ⟨t, -, hmem⟩ := Finset.mem_biUnion.1 hus
        obtain ⟨us, hbelow, rfl⟩ := Finset.mem_image.1 hmem
        exact Finset.mem_erase.2 ⟨List.cons_ne_nil t us, mem_below.1 hbelow⟩
    _ < places.card := Finset.card_erase_lt_of_mem hnil

variable [DecidableEq ν] {left right : ChangeValue ν} {path label : Text} {s : Walked ν} {levels : ℕ}

theorem walk_children_ends {count : Token → ℕ} {ts : List Token}
    (hwalk : ∀ t ∈ ts, ∀ path label s, s.visited + count t ≤ 2000 →
      ∃ s', walk levels (left.at? t) (right.at? t) path label s = some s' ∧ s'.visited ≤ s.visited + count t)
    (hcount : s.visited + (ts.map count).sum ≤ 2000) :
    ∃ s', ts.foldlM (fun s t =>
        walk levels (left.at? t) (right.at? t) (path ++ unit '/' :: t.segment) (childLabel label t) s)
          s = some s' ∧
      s'.visited ≤ s.visited + (ts.map count).sum := by
  induction ts generalizing s with
  | nil => exact ⟨s, rfl, le_rfl⟩
  | cons t ts ih =>
    rw [List.map_cons, List.sum_cons] at hcount
    obtain ⟨s₁, hfirst, hvisited⟩ :=
      hwalk t List.mem_cons_self (path ++ unit '/' :: t.segment) (childLabel label t) s (by omega)
    obtain ⟨s', hrest, hvisited'⟩ := ih (fun u hu => hwalk u (List.mem_cons_of_mem _ hu)) (s := s₁) (by omega)
    refine ⟨s', ?_, ?_⟩
    · rw [List.foldlM_cons, hfirst]
      exact hrest
    · rw [List.map_cons, List.sum_cons]
      omega

/-- A walk over few places, none too deep, comes to its end. -/
theorem walk_ends {places : Finset (List Token)} (hleft : ∀ x ∈ left, Distinct x)
    (hright : ∀ x ∈ right, Distinct x) (hplaces : ∀ ts, Place left right ts → ts ∈ places ∧
      ts.length < levels) (hcount : s.visited + places.card ≤ 2000) :
    ∃ s', walk levels left right path label s = some s' ∧ s'.visited ≤ s.visited + places.card := by
  induction levels generalizing left right path label s places with
  | zero => exact absurd (hplaces [] (.inl rfl)).2 (Nat.not_lt_zero _)
  | succ levels ih =>
    have hnil : [] ∈ places := (hplaces [] (.inl rfl)).1
    have hpos : 0 < places.card := Finset.card_pos.2 ⟨_, hnil⟩
    rw [walk, if_neg (by omega)]
    split
    · exact ⟨_, rfl, by show s.visited + 1 ≤ _; omega⟩
    split
    · rename_i ts hchildren
      have hnodup : ts.Nodup := List.Nodup.of_map _ (nodup_children hchildren hleft hright)
      have hsum := sum_card_below_lt hnil hnodup
      have hwalk : ∀ t ∈ ts, ∀ path label s, s.visited + (below places t).card ≤ 2000 →
          ∃ s', walk levels (left.at? t) (right.at? t) path label s = some s' ∧
            s'.visited ≤ s.visited + (below places t).card := by
        intro t ht path label s hs
        refine ih (Distinct.at? hleft t) (Distinct.at? hright t) (fun us hus => ?_) hs
        have hplace : Place left right (t :: us) := by
          rcases hus with rfl | hus
          · exact .inr ((mem_children hchildren).1 ht)
          · exact .inr hus
        obtain ⟨hmem, hlength⟩ := hplaces _ hplace
        exact ⟨mem_below.2 hmem, Nat.lt_of_succ_lt_succ hlength⟩
      obtain ⟨s', hs', hvisited⟩ :=
        walk_children_ends (s := ⟨s.visited + 1, s.changes⟩) hwalk (by show s.visited + 1 + _ ≤ _; omega)
      refine ⟨s', hs', ?_⟩
      have : s'.visited ≤ s.visited + 1 + _ := hvisited
      omega
    · split
      · exact ⟨_, rfl, by show s.visited + 1 ≤ _; omega⟩
      · exact ⟨_, rfl, by show s.visited + 1 ≤ _; omega⟩

end limits

/-! ### Two snapshots -/

section snapshots

variable [DecidableEq ν] {before after : Snapshot ν}

theorem compareSnapshots_walk (htext : ¬ (before.isText ∨ after.isText))
    (hlimited : (compareSnapshots before after).limited = false) :
    ∃ s, walk 25 before.value after.value [] [] ⟨0, []⟩ = some s ∧
    (compareSnapshots before after).changes = s.changes := by
  rw [compareSnapshots, if_neg htext] at hlimited ⊢
  split at hlimited
  · rename_i s hs
    exact ⟨s, hs, rfl⟩
  · cases hlimited

/-- The changes of two JSON snapshots are real, apart and complete; no two have one path, and there are none
exactly when the same stands at every path. -/
theorem changes_tell (hbefore : ∀ x ∈ before.value, Distinct x) (hafter : ∀ x ∈ after.value, Distinct x)
    (htext : ¬ (before.isText ∨ after.isText)) (hlimited : (compareSnapshots before after).limited = false) :
    (∃ ds, List.Forall₂ (Shows []) (compareSnapshots before after).changes ds ∧
      Tells before.value after.value ds) ∧
    ((compareSnapshots before after).changes.map AuditChange.path).Nodup ∧
    ((compareSnapshots before after).changes = [] ↔
      ∀ ts, kind (before.value.get ts) = kind (after.value.get ts)) := by
  obtain ⟨s, hs, hchanges⟩ := compareSnapshots_walk htext hlimited
  obtain ⟨new, ds, hnew, hshows, htells⟩ := walk_adds hbefore hafter hs
  rw [hchanges, hnew, List.nil_append]
  refine ⟨⟨ds, hshows, htells⟩, nodup_paths hshows htells, ?_⟩
  constructor
  · rintro rfl ts
    cases hshows
    by_contra hne
    rcases htells.covers ts hne with ⟨d, hd, -⟩ | ⟨-, d, hd, -⟩
    · cases hd
    · cases hd
  · intro hsame
    cases hshows with
    | nil => rfl
    | @cons c d cs ds _ _ =>
      obtain ⟨hleft, hright, hne⟩ := htells.real d List.mem_cons_self
      rw [hleft, hright] at hne
      exact absurd (hsame d.1) hne

/-- Two JSON snapshots with no more than 2000 places between them, none deeper than 24
steps, are compared to the end. -/
theorem compared_to_the_end (hbefore : ∀ x ∈ before.value, Distinct x)
    (hafter : ∀ x ∈ after.value, Distinct x) (places : Finset (List Token)) (hcard : places.card ≤ 2000)
    (hplaces : ∀ ts, Place before.value after.value ts → ts ∈ places ∧ ts.length ≤ 24) :
    (compareSnapshots before after).limited = false := by
  rw [compareSnapshots]
  split
  · split
    · rfl
    · rfl
  · have hend : ∃ s, walk 25 before.value after.value [] [] ⟨0, []⟩ = some s ∧ s.visited ≤ 0 + places.card :=
      walk_ends hbefore hafter (fun ts hts => ⟨(hplaces ts hts).1, Nat.lt_succ_of_le (hplaces ts hts).2⟩)
        (by rw [Nat.zero_add]; exact hcard)
    obtain ⟨s, hs, -⟩ := hend
    rw [hs]

end snapshots

/-! A device is renamed, it has one more socket and a note has come. -/

namespace Device

def note : JsonValue ℕ := .object [(units "by", .scalar (.number 7))]

def former : JsonValue ℕ :=
  .object [(units "name/sr", .scalar (.string (units "Prva"))),
    (units "sockets", .array [.scalar (.number 1)])]

def current : JsonValue ℕ :=
  .object [(units "name/sr", .scalar (.string (units "Druga"))),
    (units "sockets", .array [.scalar (.number 1), .scalar .null]), (units "note", note)]

theorem distinct_note : Distinct note := by
  refine .object (by decide) fun m hm => ?_
  rw [List.mem_singleton.1 hm]
  exact .scalar _

theorem distinct_former : ∀ x ∈ (Snapshot.json [] former).value, Distinct x := by
  rintro _ ⟨⟩
  refine .object (by decide) fun m hm => ?_
  rcases List.mem_cons.1 hm with rfl | hm
  · exact .scalar _
  · rw [List.mem_singleton.1 hm]
    refine .array fun v hv => ?_
    rw [List.mem_singleton.1 hv]
    exact .scalar _

theorem distinct_current : ∀ x ∈ (Snapshot.json [] current).value, Distinct x := by
  rintro _ ⟨⟩
  refine .object (by decide) fun m hm => ?_
  rcases List.mem_cons.1 hm with rfl | hm
  · exact .scalar _
  rcases List.mem_cons.1 hm with rfl | hm
  · refine .array fun v hv => ?_
    rcases List.mem_cons.1 hv with rfl | hv
    · exact .scalar _
    · rw [List.mem_singleton.1 hv]
      exact .scalar _
  · rw [List.mem_singleton.1 hm]
    exact distinct_note

theorem device_changes :
    (compareSnapshots (.json [] former) (.json [] current)).changes.map AuditChange.path =
      [units "/name~1sr", units "/sockets/1", units "/note/by"] ∧
    ∃ ds, List.Forall₂ (Shows []) (compareSnapshots (.json [] former) (.json [] current)).changes ds ∧
      Tells (some former) (some current) ds :=
  ⟨by decide, (changes_tell distinct_former distinct_current (by decide) (by decide)).1⟩

theorem get_note {t : Token} {ts : List Token} (h : get (some note) (t :: ts) ≠ none) :
    t = .key (units "by") ∧ ts = [] := by
  rw [get_cons] at h
  cases t with
  | key name =>
    by_cases hname : units "by" = name
    · refine ⟨by rw [hname], ?_⟩
      cases ts with
      | nil => rfl
      | cons t ts =>
        refine absurd ?_ h
        rw [← hname]
        exact get_none ts
    · refine absurd ?_ h
      have hnone : at? (some note) (.key name) = none := by simp [ChangeValue.at?, note, hname]
      rw [hnone, get_none]
  | index i => exact absurd (get_none ts) h

theorem note_compared : (compareSnapshots .missing (.json [] note)).limited = false := by
  refine compared_to_the_end (fun _ hx => by cases hx) (by rintro _ ⟨⟩; exact distinct_note)
    {[], [.key (units "by")]} (by decide) ?_
  rintro ts (rfl | hts | hts)
  · decide
  · exact absurd (get_none ts) hts
  · cases ts with
    | nil => decide
    | cons t ts =>
      obtain ⟨rfl, rfl⟩ := get_note hts
      decide

end Device

end GManager.Audit
