import RomArchive.Catalog
import RomArchive.Proofs.Scratch.Names

/-!
# Extensions

A name has an extension if its last component has a dot, and the extension is what stands behind the
last one. The reader looks for the dot first and for slashes behind it, while base names are cut off
at the last slash whatever dots there are. That the two agree is clear as soon as having an
extension is said in one piece: the name ends with a dot and a text without dots and slashes. What
stands in front of that has no say in it.

So an extension is not lost where a name is given a new front, as long as what is put directly
before the base name has no dot of its own. Scratch files are named so: their mark and their number
have none, and neither has a token. The directory they lie in may have as many as it likes, since a
slash comes behind it.

Wanted extensions are compared with letters folded and one leading dot taken off. What is compared
is a set, so it does not matter in which order a list gives them, nor how often.

## Main definitions

* `EntryName.Bears` — a text ends with an extension
* `EntryName.folded`, `EntryName.SameLetters` — a text without regard to ASCII case
* `EntryName.Variant` — lists that ask for the same extensions

## Main results

* `EntryName.extension?_eq_some_iff` — the extension that a name has
* `EntryName.extension?_base`, `Scratch.extension?_nextPath` — where extensions are kept
* `EntryName.matching_stable` — what matching does not depend on
-/

namespace RomArchive

namespace EntryName

/-! ### What follows the last mark -/

section AfterLast

variable {mark : Char} {front back text : List Char}

theorem afterLast_append_cons (front : List Char) (h : mark ∉ back) :
    afterLast mark (front ++ mark :: back) = back := by
  have hback : ∀ c ∈ back.reverse, decide (c ≠ mark) = true := fun c hc =>
    decide_eq_true fun heq => h (heq ▸ List.mem_reverse.1 hc)
  rw [afterLast, List.reverse_append, List.reverse_cons, List.append_assoc,
    List.takeWhile_append_of_pos hback, List.singleton_append,
    List.takeWhile_cons_of_neg (by simp), List.append_nil, List.reverse_reverse]

/-- There is a last mark if there is any. -/
theorem exists_eq_append_afterLast (h : mark ∈ text) :
    ∃ front, text = front ++ mark :: afterLast mark text := by
  obtain ⟨back, front, hsplit, hback⟩ :=
    List.eq_append_cons_of_mem (List.mem_reverse.2 h)
  have htext : text = front.reverse ++ mark :: back.reverse := by
    rw [← List.reverse_reverse text, hsplit]
    simp
  refine ⟨front.reverse, ?_⟩
  rw [htext, afterLast_append_cons _ fun hmem => hback (List.mem_reverse.1 hmem)]

theorem afterLast_of_notMem (h : mark ∉ text) : afterLast mark text = text := by
  have hall : ∀ c ∈ text.reverse, decide (c ≠ mark) = true := fun c hc =>
    decide_eq_true fun heq => h (heq ▸ List.mem_reverse.1 hc)
  have hwhole : (text.reverse ++ []).takeWhile (· ≠ mark) = text.reverse ++ [] :=
    List.takeWhile_append_of_pos hall
  rw [List.append_nil] at hwhole
  rw [afterLast, hwhole, List.reverse_reverse]

end AfterLast

/-! ### Having an extension -/

/-- A text ends with a dot and this extension, which lies in the last component and has no dots. -/
structure Bears (text extension : List Char) : Prop where
  exists_front : ∃ front, text = front ++ '.' :: extension
  dot_notMem : '.' ∉ extension
  slash_notMem : '/' ∉ extension

variable {front back text extension : List Char} {name other : String}

/-- **The extension that a name has.** -/
theorem extension?_eq_some_iff {extension : String} :
    extension? name = some extension ↔ Bears name.toList extension.toList := by
  rw [extension?]
  constructor
  · intro h
    obtain ⟨⟨hdot, hslash⟩, hsome⟩ := Option.ite_none_right_eq_some.1 h
    obtain rfl : String.ofList (afterLast '.' name.toList) = extension := Option.some.inj hsome
    rw [String.toList_ofList]
    exact ⟨exists_eq_append_afterLast hdot, notMem_afterLast '.' name.toList, hslash⟩
  · rintro ⟨⟨front, hname⟩, hdot, hslash⟩
    have hlast : afterLast '.' name.toList = extension.toList :=
      hname ▸ afterLast_append_cons front hdot
    have hmem : '.' ∈ name.toList := hname ▸ List.mem_append_right _ List.mem_cons_self
    simp only [hlast]
    rw [if_pos ⟨hmem, hslash⟩, String.ofList_toList]

/-- Names that end with the same extensions have the same. -/
theorem extension?_congr
    (h : ∀ extension, Bears name.toList extension ↔ Bears other.toList extension) :
    extension? name = extension? other :=
  Option.ext fun extension => by
    rw [extension?_eq_some_iff, extension?_eq_some_iff, h]

/-- A front without dots has no say in it. -/
theorem bears_append_iff (h : '.' ∉ front) :
    Bears (front ++ back) extension ↔ Bears back extension := by
  constructor
  · rintro ⟨⟨start, hsplit⟩, hdot, hslash⟩
    refine ⟨?_, hdot, hslash⟩
    rcases List.append_eq_append_iff.1 hsplit with ⟨rest, -, hback⟩ | ⟨rest, hfront, hrest⟩
    · exact ⟨rest, hback⟩
    · -- The dot is not in front, so nothing but it can stand behind where the front ends.
      rcases List.cons_eq_append_iff.1 hrest with ⟨-, hback⟩ | ⟨more, rfl, -⟩
      · exact ⟨[], hback⟩
      · exact absurd (hfront ▸ List.mem_append_right _ List.mem_cons_self) h
  · rintro ⟨⟨start, rfl⟩, hdot, hslash⟩
    exact ⟨⟨front ++ start, (List.append_assoc _ _ _).symm⟩, hdot, hslash⟩

/-- What stands in front of a slash has no say in it either, dots or not. -/
theorem bears_slash_iff : Bears (front ++ '/' :: back) extension ↔ Bears back extension := by
  constructor
  · rintro ⟨⟨start, hsplit⟩, hdot, hslash⟩
    refine ⟨?_, hdot, hslash⟩
    rcases List.append_eq_append_iff.1 hsplit with ⟨rest, -, hback⟩ | ⟨rest, -, hrest⟩
    · rcases List.cons_eq_append_iff.1 hback with ⟨-, hcons⟩ | ⟨more, -, hmore⟩
      · exact absurd (List.cons.inj hcons).1 (by decide)
      · exact ⟨more, hmore⟩
    · -- Otherwise the slash stands behind the dot.
      rcases List.cons_eq_append_iff.1 hrest with ⟨-, hcons⟩ | ⟨more, -, hmore⟩
      · exact absurd (List.cons.inj hcons).1 (by decide)
      · exact absurd (hmore ▸ List.mem_append_right _ List.mem_cons_self) hslash
  · rintro ⟨⟨start, rfl⟩, hdot, hslash⟩
    exact ⟨⟨front ++ '/' :: start, by simp⟩, hdot, hslash⟩

/-- **An extension is the base name's.** -/
theorem extension?_base (name : String) : extension? name = extension? (base name) := by
  refine extension?_congr fun extension => ?_
  rw [base, String.toList_ofList]
  by_cases hslash : '/' ∈ name.toList
  · obtain ⟨front, hname⟩ := exists_eq_append_afterLast hslash
    have hsame : Bears (front ++ '/' :: afterLast '/' name.toList) extension ↔
        Bears (afterLast '/' name.toList) extension := bears_slash_iff
    rwa [← hname] at hsame
  · rw [afterLast_of_notMem hslash]

end EntryName

/-! ### Scratch files -/

namespace Scratch

open EntryName

theorem IsToken.dot_notMem {token : String} (h : IsToken token) : '.' ∉ token.toList := by
  intro hmem
  have hdigit := List.all_eq_true.1 h.digits _ hmem
  cases hdigit

/-- Neither the mark nor the number nor the token has a dot. -/
theorem dot_notMem_front {scratch : Scratch}
    (htoken : scratch.naming = .unique → '.' ∉ scratch.token.toList) (number : Nat) :
    '.' ∉ scratch.front number := by
  have hmark : '.' ∉ mark.toList := by decide
  have hdigits := notMem_toDigits (show '.'.isDigit = false from rfl) number
  rw [front]
  cases hnaming : scratch.naming with
  | counter => simpa [hdigits] using hmark
  | unique => simpa [hdigits, htoken hnaming] using hmark

/-- **A scratch file has the extension of its entry**, whatever directory it lies in. -/
theorem extension?_nextPath {scratch : Scratch}
    (htoken : scratch.naming = .unique → '.' ∉ scratch.token.toList) (name : String) :
    extension? (scratch.nextPath name) = extension? name := by
  have hfront := dot_notMem_front htoken (scratch.counter + 1)
  rw [extension?_base name]
  refine extension?_congr fun extension => ?_
  rw [nextPath, PathText.toList_join, toList_fileName_front]
  rcases PathText.lead_cases scratch.root with ⟨-, hlead⟩ | ⟨above, hlead, -⟩
  · rw [hlead, List.nil_append, bears_append_iff hfront]
  · rw [hlead, List.append_assoc, List.singleton_append, bears_slash_iff, bears_append_iff hfront]

end Scratch

namespace EntryName

variable {name other item : String} {wanted others : List String}

/-! ### Letters -/

/-- A text without regard to ASCII case. -/
def folded (text : String) : List Char :=
  text.toList.map Char.toLower

/-- Two texts differ in the case of ASCII letters at most. -/
def SameLetters (text other : String) : Prop :=
  folded text = folded other

instance : Decidable (SameLetters name other) :=
  inferInstanceAs (Decidable (folded name = folded other))

/-- Folding leaves a character alone if it is no letter, and makes no letter of one that is not. -/
theorem toLower_eq_iff {mark : Char} (hmark : mark.toNat < 65) (c : Char) :
    c.toLower = mark ↔ c = mark := by
  by_cases hupper : c.val ≥ 'A'.val ∧ c.val ≤ 'Z'.val
  · have hlow : 65 ≤ c.toNat := UInt32.le_iff_toNat_le.1 hupper.1
    have hhigh : c.toNat ≤ 90 := UInt32.le_iff_toNat_le.1 hupper.2
    have hlower : c.toLower.toNat = (c.toNat + 32) % 2 ^ 32 :=
      congrArg Char.toNat (dif_pos hupper)
    constructor <;> rintro rfl <;> omega
  · exact iff_of_eq (congrArg (· = mark) (dif_neg hupper))

theorem mem_map_toLower_iff {mark : Char} (hmark : mark.toNat < 65) {text : List Char} :
    mark ∈ text.map Char.toLower ↔ mark ∈ text := by
  simp [List.mem_map, toLower_eq_iff hmark]

/-- Folding a text folds its extension. The dot in front of it is where the dot was before. -/
theorem Bears.of_folded {text other extension : List Char} (h : Bears text extension)
    (hfolded : text.map Char.toLower = other.map Char.toLower) :
    ∃ same, Bears other same ∧ same.map Char.toLower = extension.map Char.toLower := by
  obtain ⟨⟨front, rfl⟩, hdot, hslash⟩ := h
  rw [List.map_append, List.map_cons, (toLower_eq_iff (by decide) '.').2 rfl] at hfolded
  obtain ⟨start, rest, rfl, -, hrest⟩ := List.map_eq_append_iff.1 hfolded.symm
  obtain ⟨mark, same, rfl, hmark, hsame⟩ := List.map_eq_cons_iff.1 hrest
  obtain rfl := (toLower_eq_iff (by decide) mark).1 hmark
  refine ⟨same, ⟨⟨start, rfl⟩, ?_, ?_⟩, hsame⟩
  · rwa [← mem_map_toLower_iff (by decide), hsame, mem_map_toLower_iff (by decide)]
  · rwa [← mem_map_toLower_iff (by decide), hsame, mem_map_toLower_iff (by decide)]

/-! ### Lists of wanted extensions -/

/-- What an item of a list asks for: its letters folded and one leading dot taken off. -/
def asked (item : String) : List Char :=
  (withoutDot item.toList).map Char.toLower

/-- A name is wanted if what its extension folds to is among what the items ask for. -/
theorem isWanted_iff : isWanted name wanted = true ↔
    ∃ extension, extension? name = some extension ∧ folded extension ∈ wanted.map asked := by
  rw [isWanted]
  cases extension? name with
  | none => simp
  | some extension =>
    simp only [List.any_eq_true, Option.some.injEq, exists_eq_left', List.mem_map]
    exact exists_congr fun item => and_congr_right fun _ => beq_iff_eq.trans eq_comm

/-- The leading dot is no letter, so it can be taken off before or after folding. -/
theorem withoutDot_map_toLower (item : List Char) :
    (withoutDot item).map Char.toLower = withoutDot (item.map Char.toLower) := by
  rcases item with _ | ⟨c, rest⟩
  · rfl
  · by_cases hdot : c = '.'
    · rw [hdot]
      rfl
    · have hlower : c.toLower ≠ '.' := fun h => hdot ((toLower_eq_iff (by decide) c).1 h)
      rw [List.map_cons, withoutDot, withoutDot, List.map_cons]
      · exact fun _ hitem => hlower (List.cons.inj hitem).1
      · exact fun _ hitem => hdot (List.cons.inj hitem).1

theorem asked_of_sameLetters (h : SameLetters item other) : asked item = asked other := by
  rw [asked, asked, withoutDot_map_toLower, withoutDot_map_toLower]
  exact congrArg withoutDot h

theorem asked_dot_append (h : item.toList.head? ≠ some '.') : asked ("." ++ item) = asked item := by
  have hplain : withoutDot item.toList = item.toList := by
    rw [withoutDot]
    rintro rest hitem
    exact h (by rw [hitem]; rfl)
  have hdotted : withoutDot ("." ++ item).toList = item.toList := by
    rw [String.toList_append]
    rfl
  rw [asked, asked, hplain, hdotted]

/-- Two lists ask for the same extensions: one is made of the other by any number of changes, each
of which recases an item, gives it a leading dot, reorders the list or repeats an item. -/
inductive Variant : List String → List String → Prop
  | recased (front back : List String) {item other : String} (h : SameLetters item other) :
      Variant (front ++ item :: back) (front ++ other :: back)
  | dotted (front back : List String) {item : String} (h : item.toList.head? ≠ some '.') :
      Variant (front ++ item :: back) (front ++ ("." ++ item) :: back)
  | reordered {wanted others : List String} (h : wanted.Perm others) : Variant wanted others
  | repeated {item : String} {wanted : List String} (h : item ∈ wanted) :
      Variant wanted (item :: wanted)
  | refl (wanted : List String) : Variant wanted wanted
  | symm {wanted others : List String} (h : Variant wanted others) : Variant others wanted
  | trans {wanted middle others : List String} (h : Variant wanted middle)
      (hother : Variant middle others) : Variant wanted others

/-- **Variants ask for the same.** -/
theorem Variant.mem_asked_iff (h : Variant wanted others) (extension : List Char) :
    extension ∈ wanted.map asked ↔ extension ∈ others.map asked := by
  induction h with
  | recased front back hsame => simp [asked_of_sameLetters hsame]
  | dotted front back hdot => simp [asked_dot_append hdot]
  | reordered hperm => exact (hperm.map asked).mem_iff
  | repeated hmem =>
    rw [List.map_cons, List.mem_cons, or_iff_right_of_imp]
    rintro rfl
    exact List.mem_map_of_mem hmem
  | refl => exact Iff.rfl
  | symm _ ih => exact ih.symm
  | trans _ _ ih ihother => exact ih.trans ihother

/-- Neither the case of a name nor the variant of a list makes a difference. -/
theorem isWanted_of_variant (hname : SameLetters name other) (h : Variant wanted others)
    (hwanted : isWanted name wanted = true) : isWanted other others = true := by
  obtain ⟨extension, hextension, hmem⟩ := isWanted_iff.1 hwanted
  obtain ⟨same, hbears, hsame⟩ := (extension?_eq_some_iff.1 hextension).of_folded hname
  have hextensions : extension? other = some (String.ofList same) :=
    extension?_eq_some_iff.2 (by rwa [String.toList_ofList])
  refine isWanted_iff.2 ⟨_, hextensions, ?_⟩
  rw [folded, String.toList_ofList, hsame]
  exact (h.mem_asked_iff _).1 hmem

theorem isWanted_congr (hname : SameLetters name other) (h : Variant wanted others) :
    isWanted name wanted = isWanted other others :=
  Bool.eq_iff_iff.2 ⟨isWanted_of_variant hname h, isWanted_of_variant hname.symm h.symm⟩

/-- Names with the same extension are wanted alike. -/
theorem isWanted_of_extension?_eq (h : extension? name = extension? other) (wanted : List String) :
    isWanted name wanted = isWanted other wanted := by
  rw [isWanted, isWanted, h]

/-- **What matching does not depend on**: on anything in front of the base name, on the front that a
scratch file puts there, on the case of letters, and on how a list of wanted extensions is
written. -/
theorem matching_stable :
    (∀ name, extension? name = extension? (base name)) ∧
    (∀ (scratch : Scratch) (name : String),
      (scratch.naming = .unique → '.' ∉ scratch.token.toList) →
      extension? (scratch.reserve name).1 = extension? name ∧
      (∀ wanted, isWanted (scratch.reserve name).1 wanted = isWanted name wanted) ∧
      isMedia (scratch.reserve name).1 = isMedia name) ∧
    (∀ (name other : String) (wanted others : List String), SameLetters name other →
      Variant wanted others → isWanted name wanted = isWanted other others) ∧
    ∀ (entries : List CatalogEntry) (wanted others : List String), Variant wanted others →
      findMedia? entries (some wanted) = findMedia? entries (some others) := by
  refine ⟨extension?_base, fun scratch name htoken => ?_, fun _ _ _ _ => isWanted_congr,
    fun entries wanted others h => ?_⟩
  · have hsame := Scratch.extension?_nextPath htoken name
    exact ⟨hsame, isWanted_of_extension?_eq hsame, isWanted_of_extension?_eq hsame _⟩
  · have htests : isSelected (some wanted) = isSelected (some others) :=
      funext fun name => isWanted_congr rfl h
    rw [findMedia?, findMedia?, htests]

/-- A directory with dots, and a session that has begun to use it. -/
def dottedScratch : Scratch :=
  ⟨"v1.2/out.d", .unique, .overwrite, "0123abcd", 6⟩

/-- An entry in a directory with a dot keeps its extension under another such directory, and is
found by a list that is written in another way. -/
theorem matching_stable_dotted :
    (dottedScratch.reserve "disks.old/Side1.D64").1
        = "v1.2/out.d/temp_7_0123abcd_Side1.D64" ∧
    extension? (dottedScratch.reserve "disks.old/Side1.D64").1 = some "D64" ∧
    isWanted (dottedScratch.reserve "disks.old/Side1.D64").1 ["crt", ".D64", "CRT"] = true := by
  obtain ⟨-, hreserved, hvariants, -⟩ := matching_stable
  have htoken : Scratch.IsToken "0123abcd" := ⟨by decide, by decide⟩
  obtain ⟨hsame, hwanted, -⟩ :=
    hreserved dottedScratch "disks.old/Side1.D64" fun _ => htoken.dot_notMem
  -- From the list below the item is dotted, then another is recased behind a repetition of it.
  have hvariant : Variant ["d64", "crt"] ["crt", ".D64", "CRT"] :=
    .trans (.dotted [] ["crt"] (by decide)) <| .trans (.recased [] ["crt"] (by decide)) <|
      .trans (.repeated (List.mem_cons_of_mem _ List.mem_cons_self)) <|
        .recased ["crt", ".D64"] [] (by decide)
  have hplain : isWanted "disks.old/Side1.D64" ["d64", "crt"] = true := by decide
  refine ⟨by decide, hsame.trans (by decide), ?_⟩
  rw [hwanted, ← hvariants _ _ _ _ rfl hvariant, hplain]

end EntryName

end RomArchive
