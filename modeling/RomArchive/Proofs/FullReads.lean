import RomArchive.Proofs.Delivered

/-!
# Buffers filled by repeated reads

A read may deliver less than it is asked for, so whoever wants a buffer filled reads again, behind
the bytes that are there, until the buffer is full or a read delivers nothing. How often that takes
depends on the source: on the size of its pieces, on where its contents end, on where it begins to
fail. None of this may be seen in the buffer. It holds the bytes of the source from the offset on,
as many as there are or as there is room for, and what was in it before behind them; and if a read
failed, the bytes that came before it.

The loop is described here by its turns, with the buffer as it stands in between and the places at
which it reads. The reads start one piece apart until the contents end, so their number and their
places are known beforehand, and with them which read is the first to fail.

A horizon makes a difference only for a source that outgrew it. The reads in front of it deliver
whatever there is, bytes behind the horizon included, and the first one that is not in front of it
ends the loop.

## Main definitions

* `Filling`, `Filling.put` — a buffer that is being filled, and a piece put into it
* `Source.FillRun` — a run of the loop, from its reads to the buffer it leaves
* `Source.available` — how many bytes the reads from an offset on can deliver
* `Source.Reached` — how far the loop has come after some turns
* `Source.FillsExactly` — what a run leaves behind

## Main results

* `Source.available_ofFile` — what a file has available
* `Source.exists_fillRun` — the loop ends
* `Source.Reached.put` — what a turn keeps up
* `Source.FillRun.filled_eq` — how much is there at the end, unless a read failed
* `Source.fills_exactly` — what every run leaves behind
-/

namespace RomArchive

/-- A buffer, and how many bytes at its front have been filled. -/
structure Filling where
  filled : Nat
  buffer : Bytes

/-- The bytes of a piece take the place of as many bytes behind those that are there. -/
def Filling.put (filling : Filling) (piece : Bytes) : Filling where
  filled := filling.filled + piece.length
  buffer := filling.buffer.take filling.filled
    ++ (piece ++ filling.buffer.drop (filling.filled + piece.length))

namespace Source

/-- A run of the loop that fills a buffer at `offset`, from where it stands: the offsets at which it
reads, the buffer as it leaves it, and the fault that ended it if one did. -/
inductive FillRun (source : Source) (offset : Nat) :
    Filling → List Nat → Filling → Option DeviceFault → Prop
  /-- There is no room left, and no read is made. -/
  | full {filling : Filling} (hfull : filling.buffer.length ≤ filling.filled) :
      FillRun source offset filling [] filling none
  /-- A read delivers nothing. -/
  | dry {filling : Filling} (hroom : filling.filled < filling.buffer.length)
      (hread : source.read (offset + filling.filled) (filling.buffer.length - filling.filled)
        = .ok []) :
      FillRun source offset filling [offset + filling.filled] filling none
  /-- A read fails. -/
  | failed {filling : Filling} {fault : DeviceFault}
      (hroom : filling.filled < filling.buffer.length)
      (hread : source.read (offset + filling.filled) (filling.buffer.length - filling.filled)
        = .error fault) :
      FillRun source offset filling [offset + filling.filled] filling (some fault)
  /-- A read delivers a piece, and the loop goes on. -/
  | more {filling last : Filling} {piece : Bytes} {starts : List Nat} {fault : Option DeviceFault}
      (hroom : filling.filled < filling.buffer.length)
      (hread : source.read (offset + filling.filled) (filling.buffer.length - filling.filled)
        = .ok piece)
      (hpiece : piece ≠ []) (hrest : FillRun source offset (filling.put piece) starts last fault) :
      FillRun source offset filling ((offset + filling.filled) :: starts) last fault

/-- A number rounded up to whole pieces. -/
def inWholePieces (piece number : Nat) : Nat :=
  (number + (piece - 1)) / piece * piece

/-- How many bytes the reads from `offset` on can deliver: all that lie ahead, and if there is a
horizon, no more than the reads in front of it deliver, which start one piece apart. -/
def available (source : Source) (offset : Nat) : Nat :=
  match source.horizon with
  | none => source.contents.length - offset
  | some horizon =>
    min (source.contents.length - offset) (inWholePieces source.chunk (horizon - offset))

variable {source : Source} {offset start count turn : Nat} {filling last : Filling}
  {buffer piece : Bytes} {starts : List Nat} {fault : Option DeviceFault}

/-! ### One read -/

theorem fault?_eq_some_iff {found : DeviceFault} : source.fault? start = some found ↔
    ∃ broken, source.breakage = some broken ∧ broken.offset ≤ start ∧ broken.fault = found := by
  rw [fault?]
  cases source.breakage with
  | none => simp
  | some broken => simp

theorem read_eq_error_iff {found : DeviceFault} :
    source.read start count = .error found ↔ source.fault? start = some found := by
  rw [read, readAhead]
  cases source.fault? start with
  | none => simp
  | some other => simp

/-- A read fails where the source is broken, -/
theorem broken_of_read {found : DeviceFault} (h : source.read start count = .error found) :
    ∃ broken, source.breakage = some broken ∧ broken.offset ≤ start := by
  obtain ⟨broken, hbroken, hstart, -⟩ := fault?_eq_some_iff.1 (read_eq_error_iff.1 h)
  exact ⟨broken, hbroken, hstart⟩

/-- and nowhere else. -/
theorem not_broken_of_read (h : source.read start count = .ok piece) :
    ¬ ∃ broken, source.breakage = some broken ∧ broken.offset ≤ start := by
  rintro ⟨broken, hbroken, hstart⟩
  have hfails : source.read start count = .error broken.fault :=
    read_eq_error_iff.2 (fault?_eq_some_iff.2 ⟨broken, hbroken, hstart, rfl⟩)
  cases hfails.symm.trans h

/-- A read that does not fail delivers the front of what lies ahead, if it starts in front of the
horizon. -/
theorem read_eq_ok_iff : source.read start count = .ok piece ↔ source.fault? start = none ∧
    piece = if source.isBeyond start then []
      else (source.contents.drop start).take (min count source.chunk) := by
  rw [read, readAhead]
  cases source.fault? start with
  | none =>
    simp only [Except.ok.injEq, true_and]
    exact eq_comm
  | some other => simp

/-- A piece is the slice of the contents at which the read started. -/
theorem eq_slice_of_read (h : source.read start count = .ok piece) :
    piece = source.contents.slice start piece.length :=
  List.prefix_iff_eq_take.1 (isPrefix_of_readAhead h)

/-- So it goes on with the slice in front of it. -/
theorem slice_append_of_read {filled : Nat} (h : source.read (offset + filled) count = .ok piece) :
    source.contents.slice offset filled ++ piece
      = source.contents.slice offset (filled + piece.length) := by
  calc
    _ = source.contents.slice offset filled
          ++ source.contents.slice (offset + filled) piece.length :=
        congrArg _ (eq_slice_of_read h)
    _ = _ := Bytes.slice_append_slice rfl _

/-- If a read delivers anything, it delivers as much as was asked for, as one piece holds, or as
there is. -/
theorem length_of_read (h : source.read start count = .ok piece) (hpiece : piece ≠ []) :
    source.isBeyond start = false ∧
      piece.length = min (min count source.chunk) (source.contents.length - start) := by
  obtain ⟨-, heq⟩ := read_eq_ok_iff.1 h
  cases hbeyond : source.isBeyond start with
  | true =>
    rw [hbeyond, if_pos rfl] at heq
    exact absurd heq hpiece
  | false =>
    rw [heq, hbeyond, if_neg Bool.false_ne_true, List.length_take, List.length_drop]
    exact ⟨rfl, rfl⟩

/-- If it delivers nothing, it starts at or behind the horizon, or at or behind the end. -/
theorem behind_of_read_nil (h : source.read start count = .ok []) (hcount : 0 < count)
    (hchunk : source.contents ≠ [] → 0 < source.chunk) :
    source.isBeyond start = true ∨ source.contents.length ≤ start := by
  obtain ⟨-, heq⟩ := read_eq_ok_iff.1 h
  cases hbeyond : source.isBeyond start with
  | true => exact Or.inl rfl
  | false =>
    rw [hbeyond, if_neg Bool.false_ne_true] at heq
    refine Or.inr ((List.take_eq_nil_iff.1 heq.symm).elim (fun hzero => ?_) fun hnil => ?_)
    · have hempty : source.contents = [] := by
        refine Decidable.byContradiction fun hcontents => ?_
        have hpos := hchunk hcontents
        omega
      simp [hempty]
    · exact List.drop_eq_nil_iff.1 hnil

/-! ### What lies ahead -/

theorem available_le (source : Source) (offset : Nat) :
    source.available offset ≤ source.contents.length - offset := by
  rw [available]
  split
  · exact Nat.le_refl _
  · exact Nat.min_le_left _ _

section WholePieces

variable {number : Nat}

theorem inWholePieces_le (hpiece : 0 < count) (h : number ≤ turn * count) :
    inWholePieces count number ≤ turn * count := by
  have hless : (number + (count - 1)) / count < turn + 1 := by
    rw [Nat.div_lt_iff_lt_mul hpiece, Nat.add_one_mul]
    omega
  exact Nat.mul_le_mul_right count (Nat.le_of_lt_succ hless)

theorem self_le_inWholePieces (hpiece : 0 < count) (number : Nat) :
    number ≤ inWholePieces count number := by
  have hrest := Nat.div_add_mod' (number + (count - 1)) count
  have hless := Nat.mod_lt (number + (count - 1)) hpiece
  rw [inWholePieces]
  omega

theorem le_inWholePieces (hpiece : 0 < count) (h : turn * count < number) :
    (turn + 1) * count ≤ inWholePieces count number := by
  have hmore : turn + 1 ≤ (number + (count - 1)) / count := by
    rw [Nat.le_div_iff_mul_le hpiece, Nat.add_one_mul]
    omega
  exact Nat.mul_le_mul_right count hmore

end WholePieces

/-- A source that did not outgrow its horizon has everything available from the offset on. -/
theorem available_eq (hchunk : source.contents ≠ [] → 0 < source.chunk)
    (hhorizon : ∀ horizon, source.horizon = some horizon → source.contents.length ≤ horizon)
    (offset : Nat) : source.available offset = source.contents.length - offset := by
  rw [available]
  split
  · rfl
  · rename_i horizon hsome
    have hinside := hhorizon horizon hsome
    rcases Nat.eq_zero_or_pos source.contents.length with hempty | hpos
    · simp [hempty]
    · have hpieces := self_le_inWholePieces (hchunk (List.length_pos_iff.1 hpos)) (horizon - offset)
      omega

/-- Of a file, everything from the offset on is available, unless the file had ended there when it
was opened. -/
theorem available_ofFile (contents : Bytes) (size offset : Nat) :
    (ofFile contents size).available offset
      = if size ≤ offset then 0 else contents.length - offset := by
  show min (contents.length - offset) (inWholePieces contents.length (size - offset)) = _
  rcases Nat.eq_zero_or_pos contents.length with hempty | hpos
  · simp [hempty]
  · split
    · rename_i hbehind
      have hnone : inWholePieces contents.length (size - offset) ≤ 0 * contents.length :=
        inWholePieces_le hpos (by omega)
      omega
    · rename_i hinside
      have hall : (0 + 1) * contents.length ≤ inWholePieces contents.length (size - offset) :=
        le_inWholePieces hpos (by omega)
      omega

/-- A read in front of the horizon may deliver a whole piece. -/
theorem le_available (hchunk : 0 < source.chunk)
    (hfront : source.isBeyond (offset + turn * source.chunk) = false) :
    min ((turn + 1) * source.chunk) (source.contents.length - offset)
      ≤ source.available offset := by
  rw [isBeyond] at hfront
  rw [available]
  cases hhorizon : source.horizon with
  | none => exact Nat.min_le_right _ _
  | some horizon =>
    simp only [hhorizon, decide_eq_false_iff_not] at hfront
    have hpieces := le_inWholePieces hchunk (by omega : turn * source.chunk < horizon - offset)
    dsimp only
    omega

/-- What is available ends where a read starts that is not in front of it. -/
theorem available_le_of_isBeyond (hchunk : 0 < source.chunk)
    (hbehind : source.isBeyond (offset + turn * source.chunk) = true) :
    source.available offset ≤ turn * source.chunk := by
  rw [isBeyond] at hbehind
  rw [available]
  cases hhorizon : source.horizon with
  | none => simp [hhorizon] at hbehind
  | some horizon =>
    simp only [hhorizon, decide_eq_true_eq] at hbehind
    have hpieces := inWholePieces_le hchunk (by omega : horizon - offset ≤ turn * source.chunk)
    dsimp only
    omega

/-! ### Turns of the loop -/

/-- How far the loop has come after some turns, each of which began in front of the horizon: one
piece further with each of them, until the buffer is full or the contents end. -/
structure Reached (source : Source) (offset : Nat) (buffer : Bytes) (turn : Nat)
    (filling : Filling) : Prop where
  filled : filling.filled
    = min (turn * source.chunk) (min buffer.length (source.contents.length - offset))
  come : filling.filled ≤ source.available offset
  buffer : filling.buffer = source.contents.slice offset filling.filled
    ++ buffer.drop filling.filled

theorem reached_start (source : Source) (offset : Nat) (buffer : Bytes) :
    source.Reached offset buffer 0 ⟨0, buffer⟩ where
  filled := by simp
  come := Nat.zero_le _
  buffer := by simp [Bytes.slice]

namespace Reached

theorem length (h : source.Reached offset buffer turn filling) :
    filling.buffer.length = buffer.length := by
  have hfilled := h.filled
  rw [h.buffer, List.length_append, Bytes.length_slice, List.length_drop]
  omega

theorem bounds (h : source.Reached offset buffer turn filling) :
    filling.filled ≤ buffer.length ∧ filling.filled ≤ source.contents.length - offset := by
  have hfilled := h.filled
  omega

/-- A piece goes right behind the bytes that are there. -/
theorem buffer_put (h : source.Reached offset buffer turn filling)
    (hread : source.read (offset + filling.filled) count = .ok piece) :
    (filling.put piece).buffer
      = source.contents.slice offset (filling.filled + piece.length)
        ++ buffer.drop (filling.filled + piece.length) := by
  obtain ⟨-, hahead⟩ := h.bounds
  have hfront : (source.contents.slice offset filling.filled).length = filling.filled := by
    rw [Bytes.length_slice]
    omega
  have hbehind : filling.buffer.drop (filling.filled + piece.length)
      = buffer.drop (filling.filled + piece.length) := by
    rw [h.buffer, ← List.drop_drop, List.drop_left' hfront, List.drop_drop]
  show filling.buffer.take filling.filled ++ (piece ++ filling.buffer.drop _) = _
  rw [hbehind, ← List.append_assoc, ← slice_append_of_read hread, h.buffer,
    List.take_left' hfront]

/-- **What a turn keeps up.** A read that delivers anything starts among the contents and in front of
the horizon, and the piece that it delivers stands there. -/
theorem put (h : source.Reached offset buffer turn filling)
    (hroom : filling.filled < filling.buffer.length)
    (hread : source.read (offset + filling.filled) (filling.buffer.length - filling.filled)
      = .ok piece)
    (hpiece : piece ≠ []) : source.Reached offset buffer (turn + 1) (filling.put piece) := by
  obtain ⟨hfront, hlength⟩ := length_of_read hread hpiece
  have hpos : 0 < piece.length := List.length_pos_iff.2 hpiece
  have hfilled := h.filled
  rw [h.length] at hroom hlength
  have hturn : filling.filled = turn * source.chunk := by omega
  have hnext : filling.filled + piece.length = min ((turn + 1) * source.chunk)
      (min buffer.length (source.contents.length - offset)) := by
    rw [Nat.add_one_mul]
    omega
  have havailable := le_available (by omega : 0 < source.chunk) (hturn ▸ hfront)
  refine ⟨hnext, ?_, h.buffer_put hread⟩
  show filling.filled + piece.length ≤ _
  omega

/-- A read starts as many pieces behind the offset as turns were made, or at the end. -/
theorem start_eq (h : source.Reached offset buffer turn filling)
    (hroom : filling.filled < filling.buffer.length) : offset + filling.filled
      = offset + min (turn * source.chunk) (source.contents.length - offset) := by
  have hfilled := h.filled
  rw [h.length] at hroom
  omega

/-- Where the loop reads and nothing comes, everything has come that is available. -/
theorem filled_of_dry (h : source.Reached offset buffer turn filling)
    (hroom : filling.filled < filling.buffer.length)
    (hread : source.read (offset + filling.filled) (filling.buffer.length - filling.filled)
      = .ok [])
    (hchunk : source.contents ≠ [] → 0 < source.chunk) :
    filling.filled = source.available offset := by
  have hcome := h.come
  have hfilled := h.filled
  have hahead := source.available_le offset
  rw [h.length] at hroom
  rcases Nat.lt_or_ge filling.filled (source.contents.length - offset) with hless | hend
  · -- The contents go on, so it is the horizon that this read does not start in front of.
    have hturn : filling.filled = turn * source.chunk := by omega
    have hpos : 0 < source.chunk := hchunk (List.length_pos_iff.1 (by omega))
    rcases behind_of_read_nil hread (by rw [h.length]; omega) hchunk with hbeyond | hbehind
    · have hpieces := available_le_of_isBeyond hpos (hturn ▸ hbeyond)
      omega
    · omega
  · omega

end Reached

/-! ### Runs of the loop -/

/-- A piece takes room in the buffer. -/
theorem room_put (hroom : filling.filled < filling.buffer.length) (hpiece : piece ≠ []) :
    (filling.put piece).buffer.length - (filling.put piece).filled
      < filling.buffer.length - filling.filled := by
  have hpos : 0 < piece.length := List.length_pos_iff.2 hpiece
  simp only [Filling.put, List.length_append, List.length_take, List.length_drop]
  omega

/-- **The loop ends.** Each turn but the last leaves less room in the buffer. -/
theorem exists_fillRun (source : Source) (offset : Nat) (filling : Filling) :
    ∃ starts last fault, source.FillRun offset filling starts last fault := by
  induction hless : filling.buffer.length - filling.filled using Nat.strongRecOn
    generalizing filling with
  | ind room ih =>
    by_cases hroom : filling.filled < filling.buffer.length
    · cases hread : source.read (offset + filling.filled)
        (filling.buffer.length - filling.filled) with
      | error found => exact ⟨_, _, _, .failed hroom hread⟩
      | ok piece =>
        by_cases hpiece : piece = []
        · exact ⟨_, _, _, .dry hroom (hpiece ▸ hread)⟩
        · obtain ⟨starts, last, fault, hrest⟩ :=
            ih _ (hless ▸ room_put hroom hpiece) (filling.put piece) rfl
          exact ⟨_, _, _, .more hroom hread hpiece hrest⟩
    · exact ⟨_, _, _, .full (Nat.not_lt.1 hroom)⟩

namespace FillRun

/-- It makes no more reads than there is room, and one to find that nothing is left. -/
theorem length_starts_le (h : source.FillRun offset filling starts last fault) :
    starts.length ≤ filling.buffer.length - filling.filled + 1 := by
  induction h with
  | full => exact Nat.zero_le _
  | dry | failed => exact Nat.succ_le_succ (Nat.zero_le _)
  | more hroom _ hpiece _ ih =>
    have hless := room_put hroom hpiece
    simp only [List.length_cons]
    omega

/-- At its end the loop has come as far as after some turn. -/
theorem reached (h : source.FillRun offset filling starts last fault) :
    ∀ {turn : Nat}, source.Reached offset buffer turn filling →
      ∃ turns, source.Reached offset buffer turns last := by
  induction h with
  | full | dry | failed => exact fun hreached => ⟨_, hreached⟩
  | more hroom hread hpiece _ ih => exact fun hreached => ih (hreached.put hroom hread hpiece)

/-- **How much is there at the end**, unless a read failed. -/
theorem filled_eq (h : source.FillRun offset filling starts last fault)
    (hchunk : source.contents ≠ [] → 0 < source.chunk) (hfault : fault = none) :
    ∀ {turn : Nat}, source.Reached offset buffer turn filling →
      last.filled = min buffer.length (source.available offset) := by
  induction h with
  | full hfull =>
    intro turn hreached
    obtain ⟨hroom, -⟩ := hreached.bounds
    have hcome := hreached.come
    rw [hreached.length] at hfull
    omega
  | dry hroom hread =>
    intro turn hreached
    have hall := hreached.filled_of_dry hroom hread hchunk
    rw [hreached.length] at hroom
    omega
  | failed => cases hfault
  | more hroom hread hpiece _ ih =>
    intro turn hreached
    exact ih hfault (hreached.put hroom hread hpiece)

/-- The reads start one piece apart, until they come to the end of the contents. -/
theorem getElem?_starts (h : source.FillRun offset filling starts last fault) :
    ∀ {turn i : Nat}, source.Reached offset buffer turn filling → starts[i]? = some start →
      start = offset + min ((turn + i) * source.chunk) (source.contents.length - offset) := by
  induction h with
  | full =>
    intro turn i _ hstart
    simp at hstart
  | dry hroom | failed hroom =>
    intro turn i hreached hstart
    cases i with
    | zero =>
      obtain rfl := Option.some.inj hstart
      exact hreached.start_eq hroom
    | succ i => simp at hstart
  | more hroom hread hpiece _ ih =>
    intro turn i hreached hstart
    cases i with
    | zero =>
      obtain rfl := Option.some.inj hstart
      exact hreached.start_eq hroom
    | succ i =>
      have hlater := ih (hreached.put hroom hread hpiece) hstart
      rwa [Nat.add_assoc, Nat.add_comm 1 i] at hlater

/-- **A run fails exactly if one of its reads does**, which is one that starts where the source is
broken. -/
theorem fails_iff (h : source.FillRun offset filling starts last fault) :
    (∃ found, fault = some found) ↔ ∃ start ∈ starts, ∃ broken,
      source.breakage = some broken ∧ broken.offset ≤ start := by
  induction h with
  | full => simp
  | dry hroom hread => simpa using not_broken_of_read hread
  | failed hroom hread => simpa using broken_of_read hread
  | more hroom hread hpiece _ ih =>
    have hfirst := not_broken_of_read hread
    simp only [ih, List.mem_cons, exists_eq_or_imp]
    exact (or_iff_right hfirst).symm

/-- That read is the last one, at the end of what is there. -/
theorem getLast?_starts {found : DeviceFault}
    (h : source.FillRun offset filling starts last fault) (hfault : fault = some found) :
    starts.getLast? = some (offset + last.filled) ∧
      source.fault? (offset + last.filled) = some found := by
  induction h with
  | full | dry => cases hfault
  | failed hroom hread =>
    cases hfault
    exact ⟨rfl, read_eq_error_iff.1 hread⟩
  | more hroom hread hpiece hrest ih =>
    obtain ⟨hlast, hfound⟩ := ih hfault
    refine ⟨?_, hfound⟩
    rw [List.getLast?_cons, hlast]
    rfl

/-- Filling a request comes to the same. -/
theorem gather (h : source.FillRun offset filling starts last fault) :
    ∀ {turn : Nat}, source.Reached offset buffer turn filling →
      source.gather (offset + filling.filled) (buffer.length - filling.filled)
        (source.contents.drop (offset + filling.filled))
        (source.contents.slice offset filling.filled).reverse
          = ⟨source.contents.slice offset last.filled, fault⟩ := by
  induction h with
  | full hfull =>
    intro turn hreached
    rw [hreached.length] at hfull
    rw [Source.gather, if_neg (by omega), List.reverse_reverse]
  | dry hroom hread =>
    intro turn hreached
    rw [hreached.length] at hroom hread
    rw [read] at hread
    rw [Source.gather, if_pos (by omega), hread]
    simp
  | failed hroom hread =>
    intro turn hreached
    rw [hreached.length] at hroom hread
    rw [read] at hread
    rw [Source.gather, if_pos (by omega), hread]
    simp
  | @more _ _ piece _ _ hroom hread hpiece _ ih =>
    intro turn hreached
    have hrest := ih (hreached.put hroom hread hpiece)
    have hgrown := slice_append_of_read hread
    rw [hreached.length] at hroom hread
    rw [read] at hread
    rw [Source.gather, if_pos (by omega), hread]
    cases piece with
    | nil => exact absurd rfl hpiece
    | cons b bs =>
      dsimp only
      rw [List.reverseAux_eq, ← List.reverse_append, hgrown, List.drop_drop, Nat.sub_sub,
        Nat.add_assoc]
      exact hrest

end FillRun

/-! ### What a run leaves behind -/

/-- What a run of the loop over a buffer leaves behind. -/
structure FillsExactly (source : Source) (offset : Nat) (buffer : Bytes) (starts : List Nat)
    (last : Filling) (fault : Option DeviceFault) : Prop where
  /-- Unless a read failed, as many bytes have come as there is room for, or as there are. -/
  counted : fault = none → last.filled = min buffer.length (source.available offset)
  /-- These are all from the offset on, if the source has no horizon or did not outgrow it. -/
  whole : (∀ horizon, source.horizon = some horizon → source.contents.length ≤ horizon) →
    fault = none → last.filled = min buffer.length (source.contents.length - offset)
  /-- Whether or not one failed, what has come stands at the front of the buffer, and behind it
  whatever was there before. -/
  contents : last.buffer = source.contents.slice offset last.filled ++ buffer.drop last.filled
  inside : last.filled ≤ buffer.length ∧ last.filled ≤ source.contents.length - offset
  /-- The loop fails exactly if it makes a read that starts where the source is broken. -/
  fails : (∃ found, fault = some found) ↔ ∃ start ∈ starts, ∃ broken,
    source.breakage = some broken ∧ broken.offset ≤ start
  /-- That is the last read, which starts right behind the bytes that came. -/
  failing : ∀ found, fault = some found → starts.getLast? = some (offset + last.filled) ∧
    source.fault? (offset + last.filled) = some found
  /-- The reads start one piece apart until the contents end, and no more of them are made than
  there are bytes in the buffer, and one. -/
  places : ∀ i start, starts[i]? = some start →
    start = offset + min (i * source.chunk) (source.contents.length - offset)
  turns : starts.length ≤ buffer.length + 1
  /-- No offset at which it reads, or would read next, leaves 64 bits. -/
  bounded : (∀ start ∈ starts, start < UInt64.size) ∧ offset + last.filled < UInt64.size
  /-- Filling a request comes to the same. -/
  request : source.fill offset buffer.length
    = ⟨source.contents.slice offset last.filled, fault⟩ ∧
      (source.fill offset buffer.length).onto buffer = last.buffer

theorem FillsExactly.filled_eq (h : source.FillsExactly offset buffer starts last fault) :
    last.filled = (source.fill offset buffer.length).bytes.length := by
  have hinside := h.inside
  rw [h.request.1, Bytes.length_slice]
  omega

/-- **What every run leaves behind.** The source may claim any size, deliver in pieces of any size
but zero, and be broken from any offset on; the offset may be any number of 64 bits, and the buffer
may hold anything. -/
theorem fills_exactly (hchunk : source.contents ≠ [] → 0 < source.chunk)
    (hcontents : source.contents.length < UInt64.size) (hoffset : offset < UInt64.size)
    (buffer : Bytes) :
    (∃ starts last fault, source.FillRun offset ⟨0, buffer⟩ starts last fault) ∧
      ∀ starts last fault, source.FillRun offset ⟨0, buffer⟩ starts last fault →
        source.FillsExactly offset buffer starts last fault := by
  refine ⟨source.exists_fillRun offset ⟨0, buffer⟩, fun starts last fault hrun => ?_⟩
  have hstart := source.reached_start offset buffer
  obtain ⟨turns, hlast⟩ := hrun.reached hstart
  have hbounds := hlast.bounds
  have hstarts : ∀ i start, starts[i]? = some start →
      start = offset + min (i * source.chunk) (source.contents.length - offset) := by
    intro i start hstart'
    simpa using hrun.getElem?_starts hstart hstart'
  have hrequest : source.fill offset buffer.length
      = ⟨source.contents.slice offset last.filled, fault⟩ := by
    simpa [fill, Bytes.slice] using hrun.gather hstart
  have hcounted : fault = none → last.filled = min buffer.length (source.available offset) :=
    fun hfault => hrun.filled_eq hchunk hfault hstart
  refine ⟨hcounted, ?_, hlast.buffer, hbounds, hrun.fails_iff, fun found => hrun.getLast?_starts,
    hstarts, hrun.length_starts_le, ?_, hrequest, ?_⟩
  · intro hhorizon hfault
    rw [hcounted hfault, available_eq hchunk hhorizon]
  · refine ⟨fun start hmem => ?_, by omega⟩
    obtain ⟨i, hi⟩ := List.mem_iff_getElem?.1 hmem
    have hplace := hstarts i start hi
    omega
  · have hlength : (source.contents.slice offset last.filled).length = last.filled := by
      rw [Bytes.length_slice]
      omega
    rw [hrequest, Delivery.onto, hlength, hlast.buffer]

/-- Five bytes in pieces of two. The source claims nine, and is broken from the end of its contents
on. -/
def wornAtEnd : Source :=
  (inPieces [1, 2, 3, 4, 5] 9 2).brokenAt 5 (.other "worn")

/-- A buffer with room for one byte more than there are takes a read at the end, which fails; the
bytes that came before it are in the buffer. If there is no more room, that read is not made. -/
theorem fills_exactly_wornAtEnd :
    (wornAtEnd.contents ≠ [] → 0 < wornAtEnd.chunk) ∧
    wornAtEnd.contents.length < UInt64.size ∧ 2 < UInt64.size ∧
    (∃ starts last, wornAtEnd.FillRun 2 ⟨0, [9, 9, 9, 9]⟩ starts last (some (.other "worn")) ∧
      starts.getLast? = some 5 ∧ last.buffer = [3, 4, 5, 9]) ∧
    ∃ starts last, wornAtEnd.FillRun 2 ⟨0, [9, 9, 9]⟩ starts last none ∧
      last.filled = 3 ∧ last.buffer = [3, 4, 5] := by
  have hchunk : wornAtEnd.contents ≠ [] → 0 < wornAtEnd.chunk := by decide
  have hcontents : wornAtEnd.contents.length < UInt64.size := by decide
  have hoffset : 2 < UInt64.size := by decide
  refine ⟨hchunk, hcontents, hoffset, ?_, ?_⟩
  · have hfill : wornAtEnd.fill 2 4 = ⟨[3, 4, 5], some (.other "worn")⟩ := by decide +kernel
    obtain ⟨⟨starts, last, fault, hrun⟩, hleaves⟩ :=
      fills_exactly hchunk hcontents hoffset [9, 9, 9, 9]
    have hexact := hleaves starts last fault hrun
    obtain ⟨hrequest, honto⟩ := hexact.request
    have hcount : last.filled = 3 := hexact.filled_eq.trans (congrArg (·.bytes.length) hfill)
    obtain rfl : some (.other "worn") = fault :=
      congrArg Delivery.fault (hfill.symm.trans hrequest)
    obtain ⟨hlast, -⟩ := hexact.failing _ rfl
    rw [hcount] at hlast
    have hbuffer : (wornAtEnd.fill 2 4).onto [9, 9, 9, 9] = [3, 4, 5, 9] := by
      rw [hfill]
      rfl
    exact ⟨starts, last, hrun, hlast, honto.symm.trans hbuffer⟩
  · have hfill : wornAtEnd.fill 2 3 = ⟨[3, 4, 5], none⟩ := by decide +kernel
    obtain ⟨⟨starts, last, fault, hrun⟩, hleaves⟩ :=
      fills_exactly hchunk hcontents hoffset [9, 9, 9]
    have hexact := hleaves starts last fault hrun
    obtain ⟨hrequest, honto⟩ := hexact.request
    obtain rfl : none = fault := congrArg Delivery.fault (hfill.symm.trans hrequest)
    have hbuffer : (wornAtEnd.fill 2 3).onto [9, 9, 9] = [3, 4, 5] := by
      rw [hfill]
      rfl
    exact ⟨starts, last, hrun, hexact.counted rfl, honto.symm.trans hbuffer⟩

end Source

end RomArchive
