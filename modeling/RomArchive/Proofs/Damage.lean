import RomArchive.Proofs.Frames

/-!
# One damaged record

Framing looks at a signature and at three lengths. Whatever else is damaged in one record, all
records still stand where they stood, so the others are met and read as before: a catalog loses or
changes at most the one entry, and only the names of that record can be looked up with another
outcome.

Two directories are compared, of which neither is the original, so each statement can be turned
round; that the walk along the second one is not shorter follows from the first half with the two in
exchanged places.

## Main definitions

* `Frame.Inert`, `Frame.Damages` — the bytes of a frame that framing does not look at, and that two
  runs of bytes differ there only
* `Directory.Contained` — what a damage leaves as it was

## Main results

* `Frame.Damages.longestChain` — the records stand where they stood
* `Directory.damage_contained` — the damage of one record stays in that record
-/

namespace RomArchive

namespace Bytes

variable {first second : Bytes} {offset count : Nat}

theorem slice_congr
    (h : ∀ i, offset ≤ i → i < offset + count → first[i]? = second[i]?) :
    slice offset count first = slice offset count second := by
  refine List.ext_getElem? fun i => ?_
  rw [slice, slice, List.getElem?_take, List.getElem?_take, List.getElem?_drop,
    List.getElem?_drop]
  split
  · exact h (offset + i) (by omega) (by omega)
  · rfl

theorem word16_congr (h : ∀ i, offset ≤ i → i < offset + 2 → first[i]? = second[i]?) :
    word16 offset first = word16 offset second := by
  rw [word16, word16, slice_congr h]

end Bytes

/-! ### Damaged frames -/

namespace Frame

/-- Framing does not look at this byte of the frame: it belongs neither to the signature nor to the
three lengths. -/
def Inert (frame : Frame) (offset : Nat) : Prop :=
  frame.start + 4 ≤ offset ∧ offset < frame.stop ∧
    ¬ (frame.start + 28 ≤ offset ∧ offset < frame.start + 34)

/-- Two runs of bytes of the same length that differ in one frame only, and there only in bytes that
framing does not look at. -/
structure Damages (frame : Frame) (first second : Bytes) : Prop where
  length_eq : second.length = first.length
  agree : ∀ offset, ¬ frame.Inert offset → second[offset]? = first[offset]?

/-- No byte of one frame belongs to the other. -/
def Apart (frame other : Frame) : Prop := other.stop ≤ frame.start ∨ frame.stop ≤ other.start

variable {frame other : Frame} {first second : Bytes} {start limit : Nat} {frames : List Frame}

theorem Damages.symm (h : frame.Damages first second) : frame.Damages second first :=
  ⟨h.length_eq.symm, fun offset hoffset => (h.agree offset hoffset).symm⟩

/-- The change of a single byte. -/
theorem Damages.set {offset : Nat} (h : frame.Inert offset) (bytes : Bytes) (byte : UInt8) :
    frame.Damages bytes (bytes.set offset byte) := by
  refine ⟨List.length_set, fun i hi => List.getElem?_set_ne ?_⟩
  rintro rfl
  exact hi h

/-- A record stands in a frame as before, if that is the damaged one or apart from it. -/
theorem Damages.holdsRecord (h : frame.Damages first second)
    (hplace : other = frame ∨ frame.Apart other) (hholds : other.HoldsRecord first) :
    other.HoldsRecord second := by
  have hheader := hholds.header_le
  have hlooked : ∀ i, other.start ≤ i → i < other.start + 46 →
      (i < other.start + 4 ∨ other.start + 28 ≤ i ∧ i < other.start + 34) →
      second[i]? = first[i]? := by
    intro i hge hlt hi
    refine h.agree i fun hinert => ?_
    rcases hplace with rfl | hapart
    · simp only [Inert] at hinert
      omega
    · simp only [Inert, Apart, stop] at hinert hapart
      omega
  have hsignature : second.slice other.start 4 = first.slice other.start 4 :=
    Bytes.slice_congr fun i _ _ => hlooked i (by omega) (by omega) (by omega)
  have hword : ∀ field, 28 ≤ field → field + 2 ≤ 34 →
      second.word16 (other.start + field) = first.word16 (other.start + field) := fun _ _ _ =>
    Bytes.word16_congr fun i _ _ => hlooked i (by omega) (by omega) (by omega)
  constructor
  case signature => rw [hsignature, hholds.signature]
  case length =>
    rw [hword 28 (by omega) (by omega), hword 30 (by omega) (by omega),
      hword 32 (by omega) (by omega), hholds.length]
  case stop_le => exact h.length_eq ▸ hholds.stop_le

/-- The record in a frame apart from the damaged one is the same. -/
theorem Damages.record_eq (h : frame.Damages first second) (hapart : frame.Apart other) :
    other.record second = other.record first := by
  refine congrArg Record.ofBytes (Bytes.slice_congr fun i hge hlt => h.agree i fun hinert => ?_)
  simp only [Inert, Apart, stop] at hinert hapart
  omega

/-! ### Damaged chains -/

theorem Chain.start_le (h : Chain first start frames) : ∀ frame ∈ frames, start ≤ frame.start := by
  induction h with
  | nil => exact fun _ hnil => absurd hnil List.not_mem_nil
  | cons hframe hframes ih =>
    refine List.forall_mem_cons.2 ⟨Nat.le_refl _, fun frame hmem => ?_⟩
    exact Nat.le_trans (Nat.le_add_right _ _) (ih frame hmem)

/-- The frames of a chain stand in order. -/
theorem Chain.pairwise (h : Chain first start frames) :
    frames.Pairwise fun earlier later => earlier.stop ≤ later.start := by
  induction h with
  | nil => exact List.Pairwise.nil
  | cons hframe hframes ih => exact List.pairwise_cons.2 ⟨hframes.start_le, ih⟩

/-- In a chain, all other frames are apart from the given one. -/
theorem Chain.apart {before behind : List Frame}
    (h : Chain first start (before ++ frame :: behind)) :
    (∀ other ∈ before, frame.Apart other) ∧ ∀ other ∈ behind, frame.Apart other := by
  obtain ⟨-, hbehind, hbefore⟩ := List.pairwise_append.1 h.pairwise
  exact ⟨fun other hother => Or.inl (hbefore other hother frame List.mem_cons_self),
    fun other hother => Or.inr (List.rel_of_pairwise_cons hbehind hother)⟩

theorem Chain.congr (h : Chain first start frames)
    (hframes : ∀ frame ∈ frames, frame.HoldsRecord first → frame.HoldsRecord second) :
    Chain second start frames := by
  induction h with
  | nil => exact .nil
  | cons hframe _ ih =>
    obtain ⟨hhead, htail⟩ := List.forall_mem_cons.1 hframes
    exact .cons (hhead hframe) (ih htail)

theorem Damages.chain (h : frame.Damages first second) (hmem : frame ∈ frames)
    (hchain : Chain first start frames) : Chain second start frames := by
  obtain ⟨before, behind, rfl⟩ := List.append_of_mem hmem
  obtain ⟨hbefore, hbehind⟩ := hchain.apart
  refine hchain.congr fun other hother => h.holdsRecord ?_
  rcases List.mem_append.1 hother with hother | hother
  · exact Or.inr (hbefore other hother)
  · exact (List.mem_cons.1 hother).imp_right (hbehind other)

/-- **The records stand where they stood**, and behind the last of them nothing has come up: a
longer chain would have the damaged frame in it, and would have been there before. -/
theorem Damages.longestChain (h : frame.Damages first second) (hmem : frame ∈ frames)
    (hlongest : LongestChain first start limit frames) :
    LongestChain second start limit frames := by
  have hchain := h.chain hmem hlongest.chain
  refine ⟨hchain, hlongest.length_le, fun others hothers hlength => ?_⟩
  rcases Nat.le_total others.length frames.length with hle | hle
  · exact hle
  · have hmemOthers := (hchain.isPrefix hothers hle).subset hmem
    exact hlongest.longest others (h.symm.chain hmemOthers hothers) hlength

end Frame

/-! ### Damaged directories -/

/-- An element of a list stands between those in front of it and those behind it. -/
theorem exists_append_of_getElem? {α : Type} {list : List α} {k : Nat} {element : α}
    (h : list[k]? = some element) :
    ∃ before behind, list = before ++ element :: behind ∧ before.length = k := by
  obtain ⟨hlt, rfl⟩ := List.getElem?_eq_some_iff.1 h
  refine ⟨list.take k, list.drop (k + 1), ?_, List.length_take_of_le (Nat.le_of_lt hlt)⟩
  rw [← List.drop_eq_getElem_cons hlt, List.take_append_drop]

/-- The entry that a record adds to a catalog, if it can be read. -/
def Record.listed? (record : Record) : Option CatalogEntry :=
  match record.member with
  | .ok member => some member.catalogEntry
  | .error _ => none

theorem Cursor.filterMap_listed? (cursors : List Cursor) :
    cursors.filterMap Cursor.listed? = (cursors.map Cursor.record).filterMap Record.listed? := by
  rw [List.filterMap_map]
  rfl

namespace Directory

variable {first second : Directory} {frame : Frame} {frames : List Frame}

/-- A lookup looks at the records only. -/
theorem locate_eq_find?_record (directory : Directory) (name : String) : directory.locate name =
    match (directory.visited.map Cursor.record).find? (·.text == name) with
    | some record => record.member
    | none => .error (.entryNotFound name) := by
  have hsame : ((·.text == name) ∘ Cursor.record : Cursor → Bool)
      = fun cursor => cursor.record.text == name := rfl
  rw [locate_eq, List.find?_map, hsame]
  cases directory.visited.find? fun cursor => cursor.record.text == name with
  | none => rfl
  | some cursor => rfl

/-- The entries of a catalog to which the `k`-th record has added `own`, if anything, and every
other record what it does add. -/
def entriesWith (directory : Directory) (k : Nat) (own : Option CatalogEntry) :
    List CatalogEntry :=
  (directory.visited.take k).filterMap Cursor.listed? ++ own.toList
    ++ (directory.visited.drop (k + 1)).filterMap Cursor.listed?

/-- What becomes of a directory when its record at the `k`-th position is damaged. -/
structure Contained (first second : Directory) (k : Nat) (cursor damaged : Cursor) : Prop where
  /-- Both walks come to as many records, and find each of them at the same place. -/
  tours : ∃ frames, first.Tour frames ∧ second.Tour frames
  here : first.visited[k]? = some cursor ∧ second.visited[k]? = some damaged
  /-- At every other position stands the same record, so its name and its metadata are the same. -/
  records : ∀ j, j ≠ k →
    second.visited[j]?.map Cursor.record = first.visited[j]?.map Cursor.record
  /-- The catalogs that pass over unreadable records differ in the entry of the damaged one. -/
  listed : (first.catalog .skip).outcome = .ok (first.entriesWith k cursor.listed?) ∧
    (second.catalog .skip).outcome = .ok (first.entriesWith k damaged.listed?)
  /-- Only names that the damaged record has, or had, may lead elsewhere. -/
  found : ∀ name, cursor.record.text ≠ name → damaged.record.text ≠ name →
    second.locate name = first.locate name

/-- A catalog whose `k`-th record adds `own`, put together from its records. -/
theorem entriesWith_eq {directory : Directory} {before behind : List Record} {record : Record}
    (h : directory.visited.map Cursor.record = before ++ record :: behind)
    (own : Option CatalogEntry) : directory.entriesWith before.length own
      = before.filterMap Record.listed? ++ own.toList ++ behind.filterMap Record.listed? := by
  rw [entriesWith, Cursor.filterMap_listed?, Cursor.filterMap_listed?, List.map_take,
    List.map_drop, h, List.take_left, ← List.drop_drop, List.drop_left]
  rfl

theorem outcome_skip_of_map_record {directory : Directory} {before behind : List Record}
    {record : Record} (h : directory.visited.map Cursor.record = before ++ record :: behind) :
    (directory.catalog .skip).outcome = .ok (before.filterMap Record.listed?
      ++ record.listed?.toList ++ behind.filterMap Record.listed?) := by
  rw [outcome_skip, Cursor.filterMap_listed?, h, List.filterMap_append, List.filterMap_cons,
    List.append_assoc]
  cases record.listed? with
  | none => rfl
  | some entry => rfl

/-- A record that does not have the name is passed by. -/
theorem find?_of_text_ne {before behind : List Record} {record : Record} {name : String}
    (h : record.text ≠ name) : (before ++ record :: behind).find? (·.text == name)
      = (before ++ behind).find? (·.text == name) := by
  have hno : (record.text == name) = false := beq_eq_false_iff_ne.2 h
  simp only [List.find?_append, List.find?_cons, hno]

/-- Two walks along the same frames, with the same records but for one, are all that is compared. -/
theorem contained_of_map_record {k : Nat} {before behind : List Record} {cursor damaged : Cursor}
    (htours : first.Tour frames ∧ second.Tour frames)
    (hhere : first.visited[k]? = some cursor ∧ second.visited[k]? = some damaged)
    (hcount : before.length = k)
    (hfirst : first.visited.map Cursor.record = before ++ cursor.record :: behind)
    (hsecond : second.visited.map Cursor.record = before ++ damaged.record :: behind) :
    first.Contained second k cursor damaged := by
  subst hcount
  constructor
  case tours => exact ⟨frames, htours⟩
  case here => exact hhere
  case records =>
    intro j hj
    rw [← List.getElem?_map, ← List.getElem?_map, hfirst, hsecond]
    rcases Nat.lt_or_gt_of_ne hj with hlt | hgt
    · rw [List.getElem?_append_left hlt, List.getElem?_append_left hlt]
    · obtain ⟨i, hi⟩ := Nat.exists_eq_add_of_lt hgt
      have hbehind : j - before.length = i + 1 := by omega
      rw [List.getElem?_append_right (Nat.le_of_lt hgt),
        List.getElem?_append_right (Nat.le_of_lt hgt), hbehind, List.getElem?_cons_succ,
        List.getElem?_cons_succ]
  case listed =>
    rw [entriesWith_eq hfirst, entriesWith_eq hfirst]
    exact ⟨outcome_skip_of_map_record hfirst, outcome_skip_of_map_record hsecond⟩
  case found =>
    intro name hcursor hdamaged
    rw [locate_eq_find?_record, locate_eq_find?_record, hfirst, hsecond, find?_of_text_ne hcursor,
      find?_of_text_ne hdamaged]

/-- **The damage of one record stays in that record.** Two directories that declare the same number
of records, and that differ in the record at one position of the walk only, outside its signature
and its lengths, are the same at all others. -/
theorem damage_contained {k : Nat} (htour : first.Tour frames) (hframe : frames[k]? = some frame)
    (hdeclared : second.declared = first.declared)
    (hdamage : frame.Damages first.bytes second.bytes) :
    ∃ cursor damaged, first.Contained second k cursor damaged := by
  have hlongest := hdamage.longestChain (List.mem_of_getElem? hframe) htour.longest
  rw [← hdeclared] at hlongest
  have hsecond : second.Tour frames := Tour.of_longestChain hlongest
  obtain ⟨cursor, hcursor, -⟩ := htour.meets k frame hframe
  obtain ⟨damaged, hdamaged, -⟩ := hsecond.meets k frame hframe
  refine ⟨cursor, damaged, ?_⟩
  -- the damaged frame stands between others, which are apart from it
  obtain ⟨before, behind, hframes, hcount⟩ := exists_append_of_getElem? hframe
  have hchain := htour.longest.chain
  rw [hframes] at hchain
  obtain ⟨hbefore, hbehind⟩ := hchain.apart
  have hsame : ∀ others : List Frame, (∀ other ∈ others, frame.Apart other) →
      others.map (Frame.record · second.bytes) = others.map (Frame.record · first.bytes) :=
    fun others hapart => List.map_congr_left fun other hother =>
      hdamage.record_eq (hapart other hother)
  have hfirstRecords : first.visited.map Cursor.record
      = before.map (Frame.record · first.bytes) ++
        cursor.record :: behind.map (Frame.record · first.bytes) := by
    rw [htour.map_record, htour.record_eq hframe hcursor, hframes, List.map_append, List.map_cons]
  have hsecondRecords : second.visited.map Cursor.record
      = before.map (Frame.record · first.bytes) ++
        damaged.record :: behind.map (Frame.record · first.bytes) := by
    rw [hsecond.map_record, hsecond.record_eq hframe hdamaged, hframes, List.map_append,
      List.map_cons, hsame before hbefore, hsame behind hbehind]
  exact contained_of_map_record ⟨htour, hsecond⟩ ⟨hcursor, hdamaged⟩
    ((List.length_map _).trans hcount) hfirstRecords hsecondRecords

/-! ### A name with a NUL byte -/

def threeRecords : List Record :=
  [bareRecord [65] [] [], bareRecord [66] [] [], bareRecord [65] [] [67]]

def threeFrames : List Frame := [⟨0, 47⟩, ⟨47, 47⟩, ⟨94, 48⟩]

/-- The only byte of the second name becomes a NUL, and the record is no longer readable. -/
theorem damage_contained_name : ∃ first second : Directory,
    first = ofRecords threeRecords ∧ second = ⟨first.bytes.set 93 0, 3⟩ ∧
    first.Tour threeFrames ∧ threeFrames[1]? = some ⟨47, 47⟩ ∧
    second.declared = first.declared ∧ Frame.Damages ⟨47, 47⟩ first.bytes second.bytes ∧
    ∃ cursor damaged, first.Contained second 1 cursor damaged := by
  refine ⟨_, _, rfl, rfl, ?_⟩
  have hchain : Frame.Chain (ofRecords threeRecords).bytes 0 threeFrames :=
    .cons ⟨by decide, by decide, by decide +kernel⟩
      (.cons ⟨by decide +kernel, by decide +kernel, by decide +kernel⟩
        (.cons ⟨by decide +kernel, by decide +kernel, by decide +kernel⟩ .nil))
  have htour : (ofRecords threeRecords).Tour threeFrames := Tour.of_chain hchain rfl
  have hinert : Frame.Inert ⟨47, 47⟩ 93 := ⟨by decide, by decide, by decide⟩
  have hdamage := Frame.Damages.set hinert (ofRecords threeRecords).bytes 0
  exact ⟨htour, rfl, rfl, hdamage, damage_contained htour rfl rfl hdamage⟩

end Directory

end RomArchive
