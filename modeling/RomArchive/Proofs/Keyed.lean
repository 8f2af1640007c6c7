/-!
# Lists under keys

Sessions and handles are kept in lists under their names, and what is in a tree of files under its
place. These are the facts about such lists that do not depend on what is kept: where a lookup ends,
and what becomes of it when entries are changed, taken out or added.

## Main results

* `lookup_of_mem`, `eq_of_lookup` — under unique names, entries are what their names lead to
* `lookup_map`, `lookup_filter_key` — lookups in changed lists
* `filter_map_eq`, `filter_filter_eq`, `filter_append_singleton` — changes that a test does not
  select
-/

namespace RomArchive

/-! ### Lookups -/

variable {α : Type} {entries : List (String × α)} {name : String} {value : α}

theorem mem_of_lookup (h : entries.lookup name = some value) : (name, value) ∈ entries := by
  obtain ⟨before, after, rfl, -⟩ := List.lookup_eq_some_iff.1 h
  exact List.mem_append_right _ List.mem_cons_self

theorem fst_ne_of_lookup (h : entries.lookup name = none) : ∀ entry ∈ entries, entry.1 ≠ name :=
  fun entry hentry hname => by
    have hne := List.lookup_eq_none_iff.1 h entry hentry
    simp [hname] at hne

/-- Of two entries one stands in front of the other. -/
theorem rel_or_rel {R : α → α → Prop} {l : List α} (h : l.Pairwise R) {a b : α} (ha : a ∈ l)
    (hb : b ∈ l) : a = b ∨ R a b ∨ R b a := by
  obtain ⟨before, after, rfl⟩ := List.mem_iff_append.1 ha
  obtain ⟨-, hafter, hacross⟩ := List.pairwise_append.1 h
  rcases List.mem_append.1 hb with hbefore | hrest
  · exact Or.inr (Or.inr (hacross b hbefore a List.mem_cons_self))
  · rcases List.mem_cons.1 hrest with rfl | hlater
    · exact Or.inl rfl
    · exact Or.inr (Or.inl ((List.pairwise_cons.1 hafter).1 b hlater))

/-- Under unique names an entry is what its name leads to. -/
theorem lookup_of_mem (hnames : entries.Pairwise fun a b => a.1 ≠ b.1)
    (h : (name, value) ∈ entries) : entries.lookup name = some value := by
  obtain ⟨before, after, rfl⟩ := List.mem_iff_append.1 h
  refine List.lookup_eq_some_iff.2 ⟨before, after, rfl, fun entry hentry => ?_⟩
  have hne := (List.pairwise_append.1 hnames).2.2 entry hentry _ List.mem_cons_self
  exact bne_iff_ne.2 fun hname => hne hname.symm

theorem eq_of_lookup (hnames : entries.Pairwise fun a b => a.1 ≠ b.1)
    (h : entries.lookup name = some value) {entry : String × α} (hentry : entry ∈ entries)
    (hname : entry.1 = name) : entry.2 = value := by
  obtain ⟨other, found⟩ := entry
  obtain rfl : other = name := hname
  exact Option.some.inj ((lookup_of_mem hnames hentry).symm.trans h)

/-- A change under names is a change of what the names lead to. -/
theorem lookup_map {β : Type} (g : String × α → β) (entries : List (String × α)) (name : String) :
    (entries.map fun entry => (entry.1, g entry)).lookup name
      = (entries.lookup name).map fun value => g (name, value) := by
  induction entries with
  | nil => rfl
  | cons entry entries ih =>
    rw [List.map_cons, List.lookup_cons, List.lookup_cons, ih]
    cases hname : name == entry.1 with
    | false => rfl
    | true =>
      rw [beq_iff_eq.1 hname]
      rfl

/-- Under the keys that a test selects, everything is as it was, and under the others nothing is
left. -/
theorem lookup_filter_key {κ : Type} [BEq κ] [LawfulBEq κ] (q : κ → Bool) (entries : List (κ × α))
    (key : κ) : (entries.filter fun entry => q entry.1).lookup key
      = if q key then entries.lookup key else none := by
  induction entries with
  | nil => split <;> rfl
  | cons entry entries ih =>
    obtain ⟨first, value⟩ := entry
    rw [List.filter_cons]
    by_cases hkey : key = first
    · subst hkey
      by_cases hq : q key = true
      · rw [if_pos hq, if_pos hq, List.lookup_cons_self, List.lookup_cons_self]
      · rw [if_neg hq, if_neg hq, ih, if_neg hq]
    · have hskip : ∀ others : List (κ × α),
          ((first, value) :: others).lookup key = others.lookup key := by
        intro others
        rw [List.lookup_cons, beq_eq_false_iff_ne.2 hkey]
      by_cases hq : q first = true
      · rw [if_pos hq, hskip, hskip, ih]
      · rw [if_neg hq, hskip, ih]

/-- Nothing is left under a name that was given up. -/
theorem lookup_filter_self (entries : List (String × α)) (name : String) :
    (entries.filter (·.1 ≠ name)).lookup name = none := by
  rw [lookup_filter_key (· ≠ name), if_neg (by simp)]

/-- What other names lead to is still there. -/
theorem lookup_filter_of_ne (entries : List (String × α)) {name other : String}
    (h : other ≠ name) : (entries.filter (·.1 ≠ name)).lookup other = entries.lookup other := by
  rw [lookup_filter_key (· ≠ name), if_pos (decide_eq_true h)]

/-! ### Parts of changed lists -/

/-- A change that leaves alone what a test selects, and does not alter what it selects. -/
theorem filter_map_eq {p : α → Bool} {f : α → α} {l : List α} (hp : ∀ a ∈ l, p (f a) = p a)
    (hf : ∀ a ∈ l, p a = true → f a = a) : (l.map f).filter p = l.filter p := by
  induction l with
  | nil => rfl
  | cons a l ih =>
    have hrest := ih (fun b hb => hp b (List.mem_cons_of_mem _ hb))
      (fun b hb => hf b (List.mem_cons_of_mem _ hb))
    rw [List.map_cons, List.filter_cons, List.filter_cons, hp a List.mem_cons_self, hrest]
    split
    · rw [hf a List.mem_cons_self ‹_›]
    · rfl

/-- Taking out entries that a test does not select. -/
theorem filter_filter_eq {p q : α → Bool} {l : List α}
    (h : ∀ a ∈ l, p a = true → q a = true) : (l.filter q).filter p = l.filter p := by
  rw [List.filter_filter]
  refine List.filter_congr fun a ha => ?_
  cases hp : p a with
  | false => rfl
  | true => rw [h a ha hp, Bool.and_self]

/-- An entry at the end that a test does not select. -/
theorem filter_append_singleton {p : α → Bool} {l : List α} {a : α} (h : p a = false) :
    (l ++ [a]).filter p = l.filter p := by
  rw [List.filter_append, List.filter_cons, h, if_neg Bool.false_ne_true, List.filter_nil,
    List.append_nil]

end RomArchive
