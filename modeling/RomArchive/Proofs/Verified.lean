import RomArchive.Proofs.Results
import RomArchive.VerifiedBytes

/-!
# What a verified read hands out

A verified read either gives all of an entry or fails. It fills a buffer of the declared size, which
takes as many reads as the feed pleases, and then asks for one byte more. That one byte decides
between an entry that is too long and one that is not; a fault that comes later is never met, and
one that comes earlier is reported before size and checksum are compared.

None of this shows how the feed was cut into pieces. What it comes to is settled by all the bytes
that the feed gives and by how they end, so a feed can be exchanged for the delivery of its bytes at
once. That there is memory for the buffer is taken for granted here.

## Main definitions

* `Feed.bytes`, `Feed.Flows` — all bytes of a feed, and that none of its pieces is empty
* `Feed.Gives` — a feed gave some bytes, and what is left of it
* `Feed.verdict` — what a verified read comes to, as a function of the bytes and their end

## Main results

* `Feed.Flows.verified_eq` — the pieces do not count
* `Feed.verified_sound` — what is handed out has the declared size and checksum, for every feed
-/

namespace RomArchive

namespace Feed

/-! ### Reading a feed through -/

/-- Everything that a feed has still to give. -/
def bytes (feed : Feed) : Bytes := feed.pieces.flatten

/-- No piece is empty, so every read delivers something until the feed is at its end. -/
def Flows (feed : Feed) : Prop := [] ∉ feed.pieces

instance (feed : Feed) : Decidable feed.Flows := inferInstanceAs (Decidable ([] ∉ feed.pieces))

/-- The feed gave these bytes, and this is what it has still to give. -/
structure Gives (feed : Feed) (got : Bytes) (behind : Feed) : Prop where
  bytes : feed.bytes = got ++ behind.bytes
  flows : behind.Flows
  fault : behind.fault = feed.fault

variable {feed : Feed} {count : Nat}

theorem Gives.trans {got more : Bytes} {middle behind : Feed} (h : feed.Gives got middle)
    (hmore : middle.Gives more behind) : feed.Gives (got ++ more) behind where
  bytes := by rw [h.bytes, hmore.bytes, List.append_assoc]
  flows := hmore.flows
  fault := hmore.fault.trans h.fault

namespace Flows

theorem gives_nil (h : feed.Flows) : feed.Gives [] feed := ⟨rfl, h, rfl⟩

/-- A read delivers some of the bytes that are left. -/
theorem read_of_ne_nil (h : feed.Flows) (hbytes : feed.bytes ≠ []) (hcount : 0 < count) :
    ∃ b bs behind, feed.read count = .ok (b :: bs, behind) ∧ (b :: bs).length ≤ count ∧
      feed.Gives (b :: bs) behind := by
  obtain ⟨pieces, fault⟩ := feed
  cases pieces with
  | nil => exact absurd rfl hbytes
  | cons piece pieces =>
    have hpiece : piece ≠ [] := fun hnil => h (hnil ▸ List.mem_cons_self)
    have hrest : [] ∉ pieces := fun hnil => h (List.mem_cons_of_mem _ hnil)
    cases hfront : piece.take count with
    | nil =>
      rcases List.take_eq_nil_iff.1 hfront with hzero | hnil
      · exact absurd hzero (Nat.ne_of_gt hcount)
      · exact absurd hnil hpiece
    | cons b bs =>
      have hlength : (b :: bs).length ≤ count := by
        rw [← hfront, List.length_take]
        exact Nat.min_le_left _ _
      have hsplit : piece = (b :: bs) ++ piece.drop count := by
        rw [← hfront, List.take_append_drop]
      -- The read stops at the end of the piece, so the bytes behind it are a piece of their own.
      by_cases hlater : piece.drop count = []
      · refine ⟨b, bs, ⟨pieces, fault⟩, ?_, hlength, ⟨?_, hrest, rfl⟩⟩
        · cases fault <;> simp only [read, hfront, if_pos hlater]
        · rw [hlater, List.append_nil] at hsplit
          rw [bytes, List.flatten_cons, hsplit]
          rfl
      · refine ⟨b, bs, ⟨piece.drop count :: pieces, fault⟩, ?_, hlength, ⟨?_, ?_, rfl⟩⟩
        · cases fault <;> simp only [read, hfront, if_neg hlater]
        · rw [bytes, bytes, List.flatten_cons, List.flatten_cons, ← List.append_assoc, ← hsplit]
        · exact fun hnil => (List.mem_cons.1 hnil).elim (fun heq => hlater heq.symm) hrest

/-- A read at the end reports the fault, if there is one. -/
theorem read_of_nil (h : feed.Flows) (hbytes : feed.bytes = []) (count : Nat) :
    feed.read count = match feed.fault with
      | some fault => .error fault
      | none => .ok ([], feed) := by
  obtain ⟨pieces, fault⟩ := feed
  have hempty : ∀ piece ∈ pieces, piece = [] := List.flatten_eq_nil_iff.1 hbytes
  cases pieces with
  | nil => cases fault <;> rfl
  | cons piece pieces => exact absurd (hempty piece List.mem_cons_self ▸ List.mem_cons_self) h

/-- One turn of the loop. -/
theorem gather_of_ne_nil (h : feed.Flows) (hbytes : feed.bytes ≠ []) (hcount : 0 < count) :
    ∃ more behind, more ≠ [] ∧ more.length ≤ count ∧ feed.Gives more behind ∧ ∀ got : Bytes,
      feed.gather count got = behind.gather (count - more.length) (more.reverseAux got) := by
  obtain ⟨b, bs, behind, hread, hlength, hgives⟩ := h.read_of_ne_nil hbytes hcount
  refine ⟨b :: bs, behind, List.cons_ne_nil b bs, hlength, hgives, fun got => ?_⟩
  rw [gather, if_pos hcount, hread]

/-- The loop ends with as many bytes as were asked for, if the feed has them. What would come behind
them, a fault among it, plays no part. The induction is on what is still asked for. -/
theorem gather_of_le (count : Nat) : ∀ {feed : Feed} (got : Bytes), feed.Flows →
    count ≤ feed.bytes.length →
      ∃ behind, feed.gather count got = .ok (got.reverse ++ feed.bytes.take count, behind) ∧
        feed.Gives (feed.bytes.take count) behind := by
  induction count using Nat.strongRecOn with
  | ind count ih =>
    intro feed got h hle
    by_cases hcount : 0 < count
    · have hbytes : feed.bytes ≠ [] := by
        rintro hnil
        rw [hnil, List.length_nil] at hle
        omega
      obtain ⟨more, behind, hmore, hlength, hgives, hturn⟩ := h.gather_of_ne_nil hbytes hcount
      have hpos := List.length_pos_iff.2 hmore
      have htake : feed.bytes.take count = more ++ behind.bytes.take (count - more.length) := by
        rw [hgives.bytes, List.take_append, List.take_of_length_le hlength]
      have hless : count - more.length ≤ behind.bytes.length := by
        rw [hgives.bytes, List.length_append] at hle
        omega
      obtain ⟨last, hlast, hrest⟩ :=
        ih (count - more.length) (by omega) (more.reverseAux got) hgives.flows hless
      refine ⟨last, ?_, htake ▸ hgives.trans hrest⟩
      rw [hturn, hlast, htake, List.reverseAux_eq, List.reverse_append, List.reverse_reverse,
        List.append_assoc]
    · obtain rfl : count = 0 := by omega
      refine ⟨feed, ?_, h.gives_nil⟩
      rw [gather, if_neg hcount, List.take_zero, List.append_nil]

/-- If it has fewer, the loop ends as the feed does. -/
theorem gather_of_lt (count : Nat) : ∀ {feed : Feed} (got : Bytes), feed.Flows →
    feed.bytes.length < count →
      ∃ behind, feed.gather count got = match feed.fault with
        | some fault => .error fault
        | none => .ok (got.reverse ++ feed.bytes, behind) := by
  induction count using Nat.strongRecOn with
  | ind count ih =>
    intro feed got h hlt
    have hcount : 0 < count := Nat.lt_of_le_of_lt (Nat.zero_le _) hlt
    by_cases hbytes : feed.bytes = []
    · refine ⟨feed, ?_⟩
      rw [gather, if_pos hcount, h.read_of_nil hbytes, hbytes, List.append_nil]
      cases feed.fault <;> rfl
    · obtain ⟨more, behind, hmore, hlength, hgives, hturn⟩ := h.gather_of_ne_nil hbytes hcount
      have hpos := List.length_pos_iff.2 hmore
      have hless : behind.bytes.length < count - more.length := by
        rw [hgives.bytes, List.length_append] at hlt
        omega
      obtain ⟨last, hlast⟩ :=
        ih (count - more.length) (by omega) (more.reverseAux got) hgives.flows hless
      refine ⟨last, ?_⟩
      rw [hturn, hlast, hgives.fault, hgives.bytes, List.reverseAux_eq, List.reverse_append,
        List.reverse_reverse, List.append_assoc]

theorem take_of_le (h : feed.Flows) (hle : count ≤ feed.bytes.length) :
    ∃ behind, feed.take count = .ok (feed.bytes.take count, behind) ∧
      feed.Gives (feed.bytes.take count) behind :=
  h.gather_of_le count [] hle

theorem take_of_lt (h : feed.Flows) (hlt : feed.bytes.length < count) :
    ∃ behind, feed.take count = match feed.fault with
      | some fault => .error fault
      | none => .ok (feed.bytes, behind) :=
  h.gather_of_lt count [] hlt

end Flows

/-! ### The verdict -/

/-- What a verified read of a feed comes to. It depends on the bytes that the feed gives and on how
they end, and on nothing else. -/
def verdict (delivery : Delivery) (name : String) (declared : Nat) (expected : UInt32) :
    Except Failure VerifiedBytes :=
  if declared < delivery.bytes.length then .error (.sizeMismatch name declared (declared + 1))
  else
    match delivery.fault with
    | some fault => .error (.device fault)
    | none =>
      if delivery.bytes.length < declared then
        .error (.sizeMismatch name declared delivery.bytes.length)
      else if crc32 delivery.bytes ≠ expected then
        .error (.crcMismatch name expected (crc32 delivery.bytes))
      else .ok ⟨name, delivery.bytes⟩

theorem verdict_eq_ok_iff {delivery : Delivery} {name : String} {declared : Nat}
    {expected : UInt32} {contents : VerifiedBytes} :
    verdict delivery name declared expected = .ok contents ↔
      delivery.fault = none ∧ delivery.bytes.length = declared ∧
        crc32 delivery.bytes = expected ∧ contents = ⟨name, delivery.bytes⟩ := by
  rw [verdict]
  constructor
  · intro h
    split at h
    · cases h
    · rename_i hmore
      split at h
      · cases h
      · rename_i hfault
        split at h
        · cases h
        · rename_i hless
          split at h
          · cases h
          · rename_i hchecksum
            cases h
            exact ⟨hfault, by omega, Decidable.not_not.1 hchecksum, rfl⟩
  · rintro ⟨hfault, rfl, rfl, rfl⟩
    rw [if_neg (Nat.lt_irrefl _), hfault]
    dsimp only
    rw [if_neg (Nat.lt_irrefl _), if_neg (not_not_intro rfl)]

/-- The comparisons behind the loop, in their order. -/
theorem verified_of_take {name : String} {declared : Nat} {expected : UInt32} {bytes : Bytes}
    {behind : Feed} (h : feed.take declared = .ok (bytes, behind)) :
    feed.verified name declared expected =
      if bytes.length ≠ declared then .error (.sizeMismatch name declared bytes.length)
      else
        match behind.read 1 with
        | .error fault => .error (.device fault)
        | .ok (probe, _) =>
          if probe ≠ [] then .error (.sizeMismatch name declared (declared + probe.length))
          else if crc32 bytes ≠ expected then
            .error (.crcMismatch name expected (crc32 bytes))
          else .ok ⟨name, bytes⟩ := by
  rw [verified, h]
  show (if bytes.length = declared then _ else _) = _
  by_cases hlength : bytes.length = declared
  · rw [if_pos hlength, if_neg (not_not_intro hlength)]
    cases behind.read 1 with
    | error fault => rfl
    | ok outcome =>
      obtain ⟨probe, last⟩ := outcome
      show (if bytes.length ≠ declared ∨ probe.length ≠ 0 then _ else _) = _
      cases probe with
      | nil =>
        have hexact : ¬ (bytes.length ≠ declared ∨ ([] : Bytes).length ≠ 0) := by simp [hlength]
        rw [if_neg hexact]
        rfl
      | cons b bs =>
        have hsurplus : bytes.length ≠ declared ∨ (b :: bs).length ≠ 0 := by simp
        rw [if_pos hsurplus, hlength]
        rfl
  · rw [if_neg hlength, if_pos hlength]
    show (if bytes.length ≠ declared ∨ 0 ≠ 0 then _ else _) = _
    rw [if_pos (Or.inl hlength)]
    rfl

/-- **The verdict on a feed** does not depend on the pieces in which it gives its bytes. -/
theorem Flows.verified_eq (h : feed.Flows) (name : String) (declared : Nat) (expected : UInt32) :
    feed.verified name declared expected
      = verdict ⟨feed.bytes, feed.fault⟩ name declared expected := by
  rw [verdict]
  rcases Nat.lt_or_ge feed.bytes.length declared with hlt | hge
  · obtain ⟨behind, htake⟩ := h.take_of_lt hlt
    rw [if_neg (Nat.lt_asymm hlt), if_pos hlt]
    cases hfault : feed.fault with
    | some fault =>
      rw [hfault] at htake
      rw [verified, htake]
      rfl
    | none =>
      rw [hfault] at htake
      rw [verified_of_take htake, if_pos (Nat.ne_of_lt hlt)]
  · obtain ⟨behind, htake, hgives⟩ := h.take_of_le hge
    have hlength : (feed.bytes.take declared).length = declared := by
      rw [List.length_take, Nat.min_eq_left hge]
    rw [verified_of_take htake, if_neg (not_not_intro hlength)]
    by_cases hmore : declared < feed.bytes.length
    · have hbehind : behind.bytes ≠ [] := by
        intro hnil
        have hall := congrArg List.length hgives.bytes
        rw [hnil, List.append_nil, hlength] at hall
        omega
      obtain ⟨b, bs, last, hread, hone, -⟩ := hgives.flows.read_of_ne_nil hbehind Nat.one_pos
      have hsingle : (b :: bs).length = 1 := Nat.le_antisymm hone (Nat.succ_pos _)
      rw [if_pos hmore, hread, ← hsingle]
      rfl
    · have hall : feed.bytes.take declared = feed.bytes :=
        List.take_of_length_le (Nat.not_lt.1 hmore)
      have hbehind : behind.bytes = [] := by
        have hbytes := hgives.bytes
        rwa [hall, List.self_eq_append_right] at hbytes
      rw [if_neg hmore, hgives.flows.read_of_nil hbehind, hgives.fault, hall,
        if_neg (Nat.not_lt.2 hge)]
      cases feed.fault <;> rfl

/-! ### Feeds that have all of their bytes at hand -/

theorem flows_ofDelivery (delivery : Delivery) : (ofDelivery delivery).Flows := by
  rw [Flows, ofDelivery]
  split
  · exact List.not_mem_nil
  · rename_i hbytes
    exact fun hnil => hbytes (List.mem_singleton.1 hnil).symm

theorem bytes_ofDelivery (delivery : Delivery) : (ofDelivery delivery).bytes = delivery.bytes := by
  rw [bytes, ofDelivery]
  split
  · rename_i hbytes
    exact hbytes.symm
  · exact List.flatten_singleton

/-- **Bytes with the right size and checksum are handed out.** -/
theorem verified_ofDelivery (name : String) (bytes : Bytes) :
    (ofDelivery ⟨bytes, none⟩).verified name bytes.length (crc32 bytes) = .ok ⟨name, bytes⟩ := by
  rw [(flows_ofDelivery _).verified_eq, bytes_ofDelivery]
  exact verdict_eq_ok_iff.2 ⟨rfl, rfl, rfl, rfl⟩

/-- **What is handed out has the declared size and checksum**, and bears the name it was asked
for. This holds of feeds with empty pieces too. -/
theorem verified_sound {feed : Feed} {name : String} {declared : Nat} {expected : UInt32}
    {contents : VerifiedBytes} (h : feed.verified name declared expected = .ok contents) :
    contents.name = name ∧ contents.bytes.length = declared ∧ crc32 contents.bytes = expected := by
  cases htake : feed.take declared with
  | error fault =>
    rw [verified, htake] at h
    cases h
  | ok outcome =>
    obtain ⟨bytes, behind⟩ := outcome
    rw [verified_of_take htake] at h
    split at h
    · cases h
    · rename_i hlength
      split at h
      · cases h
      · split at h
        · cases h
        · split at h
          · cases h
          · rename_i hchecksum
            cases h
            exact ⟨rfl, Decidable.not_not.1 hlength, Decidable.not_not.1 hchecksum⟩

end Feed

end RomArchive
