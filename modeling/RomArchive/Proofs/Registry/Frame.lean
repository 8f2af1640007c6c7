import RomArchive.Proofs.Registry.Sound

/-!
# What moves leave alone

A move changes the sessions and handles that it touches and no others. Of those that it touches it
never opens one again: a handle is opened only together with a new number, and numbers only grow.

## Main definitions

* `Workspace.Settled` — a number was given out, and it is known which handles may have it
* `Workspace.Retired` — a number was given out, and no open handle has it
* `Workspace.Given` — a list of all numbers that were given out

## Main results

* `Workspace.Moves.frame` — what is not touched stays as it was
* `Workspace.Moves.settled` — a number that was given out is not given out again
* `Workspace.Moves.given` — the numbers of a session ascend in the order they were given out
-/

namespace RomArchive

namespace Workspace

variable {workspace next : Workspace} {touched : Nat → Prop} {ids : List (Nat × Nat)}
  {serial id : Nat}

/-! ### What is not touched -/

theorem Sound.sessionsOf_replace (h : workspace.Sound) {name : String} {session other : Session}
    (hsession : workspace.session? name = some session) (hsame : other.serial = session.serial)
    (hserial : session.serial ≠ serial) :
    (workspace.replace name other).sessionsOf serial = workspace.sessionsOf serial := by
  refine filter_map_eq (fun entry hentry => ?_) (fun entry hentry hp => ?_)
  · rw [h.serial_replaced hsession hsame hentry]
  · have hname : entry.1 ≠ name := fun hname => hserial (by
      rw [← eq_of_lookup h.sessionNames hsession hentry hname]
      exact of_decide_eq_true hp)
    rw [if_neg hname]

theorem Sound.frame_closeHandle (h : workspace.Sound) {name : String} {handle : Handle}
    (hhandle : workspace.handle? name = some handle) (hserial : handle.owner ≠ serial) :
    (workspace.closeHandle name).sessionsOf serial = workspace.sessionsOf serial ∧
      (workspace.closeHandle name).handlesOf serial = workspace.handlesOf serial := by
  cases hopen : handle.isOpen with
  | false =>
    rw [closeHandle_of_not_isOpen hhandle hopen]
    exact ⟨rfl, rfl⟩
  | true =>
    rw [closeHandle_of_isOpen hhandle hopen]
    constructor
    · refine filter_map_eq (fun entry _ => ?_) (fun entry _ hp => ?_)
      · rw [(forgetHandle_key handle entry).1]
      · have hne : entry.2.serial ≠ handle.owner := fun heq =>
          hserial (heq ▸ of_decide_eq_true hp)
        rw [forgetHandle, if_neg hne]
    · refine filter_map_eq (fun entry _ => ?_) (fun entry hentry hp => ?_)
      · rw [(closeName_key name entry).2.1]
      · have hname : entry.1 ≠ name := fun hname =>
          hserial (((h.name_iff hhandle hentry).1 hname).1 ▸ of_decide_eq_true hp)
        rw [closeName, if_neg hname]

theorem frame_closeAll {session : Session} (hserial : session.serial ≠ serial) :
    (workspace.closeAll session).1.sessionsOf serial = workspace.sessionsOf serial ∧
      (workspace.closeAll session).1.handlesOf serial = workspace.handlesOf serial := by
  rw [closeAll_fst]
  constructor
  · refine filter_map_eq (fun entry _ => ?_) (fun entry _ hp => ?_)
    · rw [clearLive]
      split <;> rfl
    · have hne : entry.2.serial ≠ session.serial := fun heq =>
        hserial (heq ▸ of_decide_eq_true hp)
      rw [clearLive, if_neg hne]
  · refine filter_map_eq (fun entry _ => ?_) (fun entry _ hp => ?_)
    · rw [(closeListed_key session entry).2.1]
    · have hlisted : ¬ isListed session entry.2 = true := fun hlisted =>
        hserial ((isListed_iff.1 hlisted).1 ▸ of_decide_eq_true hp)
      rw [closeListed, if_neg hlisted]

/-- **What is not touched stays as it was.** -/
theorem Move.frame (hmove : Move touched workspace ids next) (h : workspace.Sound)
    (huntouched : ¬ touched serial) :
    next.sessionsOf serial = workspace.sessionsOf serial ∧
      next.handlesOf serial = workspace.handlesOf serial := by
  have hne : ∀ {other : Nat}, touched other → other ≠ serial :=
    fun htouched heq => huntouched (heq ▸ htouched)
  cases hmove with
  | files tree => exact ⟨rfl, rfl⟩
  | written scratch hsession htouched =>
    exact ⟨h.sessionsOf_replace hsession rfl (hne htouched), rfl⟩
  | spent scratch hsession htouched =>
    exact ⟨h.sessionsOf_replace hsession rfl (hne htouched), rfl⟩
  | opened handleName path container hsession _ htouched =>
    exact ⟨h.sessionsOf_replace hsession rfl (hne htouched),
      filter_append_singleton (decide_eq_false (hne htouched))⟩
  | closed hhandle htouched => exact h.frame_closeHandle hhandle (hne htouched)
  | removed hclosed =>
    refine ⟨rfl, filter_filter_eq fun entry hentry hp => decide_eq_true fun hname => ?_⟩
    have htouched := (hclosed _ (hname ▸ lookup_of_mem h.handleNames hentry)).2
    exact hne htouched (of_decide_eq_true hp)
  | closedAll _ htouched => exact frame_closeAll (hne htouched)
  | ended hsession _ htouched =>
    refine ⟨filter_filter_eq fun entry hentry hp => decide_eq_true fun hname => ?_, rfl⟩
    rw [eq_of_lookup h.sessionNames hsession hentry hname] at hp
    exact hne htouched (of_decide_eq_true hp)
  | started settings token _ htouched =>
    exact ⟨filter_append_singleton (decide_eq_false (hne htouched)), rfl⟩

theorem Moves.frame (hmoves : Moves touched workspace ids next) (h : workspace.Sound)
    (huntouched : ¬ touched serial) :
    next.sessionsOf serial = workspace.sessionsOf serial ∧
      next.handlesOf serial = workspace.handlesOf serial := by
  induction hmoves with
  | refl => exact ⟨rfl, rfl⟩
  | tail hmoves hmove ih =>
    obtain ⟨hsessions, hhandles⟩ := hmove.frame (hmoves.sound h) huntouched
    exact ⟨hsessions.trans ih.1, hhandles.trans ih.2⟩

/-! ### Where sessions and handles come from -/

theorem started_closeHandle (workspace : Workspace) (name : String) :
    (workspace.closeHandle name).started = workspace.started := by
  rw [closeHandle]
  split
  · split <;> rfl
  · rfl

/-- Closing a handle leaves the sessions in place. -/
theorem mem_sessions_closeHandle {name : String} {entry : String × Session}
    (hentry : entry ∈ (workspace.closeHandle name).sessions) :
    ∃ old ∈ workspace.sessions, old.2.serial = entry.2.serial ∧ old.2.issued = entry.2.issued := by
  rw [closeHandle] at hentry
  split at hentry
  · split at hentry
    · obtain ⟨old, hold, rfl⟩ := List.mem_map.1 hentry
      obtain ⟨hserial, hissued, -⟩ := forgetHandle_key _ old
      exact ⟨old, hold, hserial.symm, hissued.symm⟩
    · exact ⟨entry, hentry, rfl, rfl⟩
  · exact ⟨entry, hentry, rfl, rfl⟩

/-- Every handle afterwards was there before, possibly open. -/
theorem mem_handles_closeHandle {name : String} {entry : String × Handle}
    (hentry : entry ∈ (workspace.closeHandle name).handles) :
    ∃ old ∈ workspace.handles, entry = old ∨ entry = (old.1, old.2.closed) := by
  rw [closeHandle] at hentry
  split at hentry
  · split at hentry
    · obtain ⟨old, hold, rfl⟩ := List.mem_map.1 hentry
      refine ⟨old, hold, ?_⟩
      show closeName name old = old ∨ closeName name old = (old.1, old.2.closed)
      rw [closeName]
      split
      · exact Or.inr rfl
      · exact Or.inl rfl
    · exact ⟨entry, hentry, Or.inl rfl⟩
  · exact ⟨entry, hentry, Or.inl rfl⟩

theorem mem_handles_closeAll {session : Session} {entry : String × Handle}
    (hentry : entry ∈ (workspace.closeAll session).1.handles) :
    ∃ old ∈ workspace.handles, entry = old ∨ entry = (old.1, old.2.closed) := by
  rw [closeAll_fst] at hentry
  obtain ⟨old, hold, rfl⟩ := List.mem_map.1 hentry
  refine ⟨old, hold, ?_⟩
  rw [closeListed]
  split
  · exact Or.inr rfl
  · exact Or.inl rfl

theorem Move.started_le (hmove : Move touched workspace ids next) :
    workspace.started ≤ next.started := by
  cases hmove with
  | closed hhandle => exact Nat.le_of_eq (started_closeHandle _ _).symm
  | closedAll => exact Nat.le_of_eq (started_closeAll _ _).symm
  | started => exact Nat.le_succ _
  | _ => exact Nat.le_refl _

/-- A session after a move was there before, or it is the next to start. -/
theorem Move.session_origin (hmove : Move touched workspace ids next)
    {entry : String × Session} (hentry : entry ∈ next.sessions) :
    (∃ old ∈ workspace.sessions,
      old.2.serial = entry.2.serial ∧ old.2.issued ≤ entry.2.issued) ∨
      entry.2.serial = workspace.started := by
  have hkept : ∀ {name : String} {session other : Session},
      entry ∈ (workspace.replace name other).sessions →
      workspace.session? name = some session → other.serial = session.serial →
      session.issued ≤ other.issued →
      ∃ old ∈ workspace.sessions,
        old.2.serial = entry.2.serial ∧ old.2.issued ≤ entry.2.issued := by
    intro name session other hmem hsession hserial hissued
    rcases mem_replace hmem with rfl | ⟨hold, -⟩
    · exact ⟨_, mem_of_lookup hsession, hserial.symm, hissued⟩
    · exact ⟨entry, hold, rfl, Nat.le_refl _⟩
  cases hmove with
  | files tree => exact Or.inl ⟨entry, hentry, rfl, Nat.le_refl _⟩
  | written scratch hsession => exact Or.inl (hkept hentry hsession rfl (Nat.le_refl _))
  | spent scratch hsession => exact Or.inl (hkept hentry hsession rfl (Nat.le_succ _))
  | opened handleName path container hsession =>
    exact Or.inl (hkept hentry hsession rfl (Nat.le_succ _))
  | closed hhandle =>
    obtain ⟨old, hold, hserial, hissued⟩ := mem_sessions_closeHandle hentry
    exact Or.inl ⟨old, hold, hserial, Nat.le_of_eq hissued⟩
  | removed hclosed => exact Or.inl ⟨entry, hentry, rfl, Nat.le_refl _⟩
  | closedAll hsession =>
    rw [closeAll_fst] at hentry
    obtain ⟨old, hold, rfl⟩ := List.mem_map.1 hentry
    refine Or.inl ⟨old, hold, ?_⟩
    rw [clearLive]
    split <;> exact ⟨rfl, Nat.le_refl _⟩
  | ended hsession hidle =>
    exact Or.inl ⟨entry, (List.mem_filter.1 hentry).1, rfl, Nat.le_refl _⟩
  | started settings token hvacant =>
    rcases List.mem_append.1 hentry with hold | hnew
    · exact Or.inl ⟨entry, hold, rfl, Nat.le_refl _⟩
    · rw [List.mem_singleton.1 hnew]
      exact Or.inr rfl

/-- A handle after a move was there before, possibly open, or a session opened it just now with its
next number. -/
theorem Move.handle_origin (hmove : Move touched workspace ids next)
    {entry : String × Handle} (hentry : entry ∈ next.handles) :
    (∃ old ∈ workspace.handles, entry = old ∨ entry = (old.1, old.2.closed)) ∨
      ∃ name session, workspace.session? name = some session ∧
        entry.2.owner = session.serial ∧ entry.2.id = session.issued + 1 ∧
        (session.serial, session.issued + 1) ∈ ids := by
  cases hmove with
  | files tree => exact Or.inl ⟨entry, hentry, Or.inl rfl⟩
  | written scratch hsession => exact Or.inl ⟨entry, hentry, Or.inl rfl⟩
  | spent scratch hsession => exact Or.inl ⟨entry, hentry, Or.inl rfl⟩
  | opened handleName path container hsession =>
    rcases List.mem_append.1 hentry with hold | hnew
    · exact Or.inl ⟨entry, hold, Or.inl rfl⟩
    · rw [List.mem_singleton.1 hnew]
      exact Or.inr ⟨_, _, hsession, rfl, rfl, List.mem_singleton.2 rfl⟩
  | closed hhandle => exact Or.inl (mem_handles_closeHandle hentry)
  | removed hclosed => exact Or.inl ⟨entry, (List.mem_filter.1 hentry).1, Or.inl rfl⟩
  | closedAll hsession => exact Or.inl (mem_handles_closeAll hentry)
  | ended hsession hidle => exact Or.inl ⟨entry, hentry, Or.inl rfl⟩
  | started settings token hvacant => exact Or.inl ⟨entry, hentry, Or.inl rfl⟩

/-- A number that is given out is the next of its session, and is counted there. -/
theorem Move.id_origin (hmove : Move touched workspace ids next) (h : workspace.Sound) :
    ids = [] ∨ ∃ name session, workspace.session? name = some session ∧
      ids = [(session.serial, session.issued + 1)] ∧
      ∀ later ∈ next.sessions, later.2.serial = session.serial →
        session.issued + 1 ≤ later.2.issued := by
  have hcounted : ∀ {name : String} {session other : Session},
      workspace.session? name = some session → session.issued + 1 ≤ other.issued →
      ∀ later ∈ (workspace.replace name other).sessions, later.2.serial = session.serial →
        session.issued + 1 ≤ later.2.issued := by
    intro name session other hsession hissued later hlater hserial
    rcases mem_replace hlater with rfl | ⟨hold, hname⟩
    · exact hissued
    · exact absurd hserial (h.serial_ne hsession hold hname)
  cases hmove with
  | spent scratch hsession =>
    exact Or.inr ⟨_, _, hsession, rfl, hcounted hsession (Nat.le_refl _)⟩
  | opened handleName path container hsession =>
    exact Or.inr ⟨_, _, hsession, rfl, hcounted hsession (Nat.le_refl _)⟩
  | _ => exact Or.inl rfl

/-! ### Numbers that were given out -/

/-- A number was given out, and a handle that has it is one of these. -/
structure Settled (workspace : Workspace) (serial id : Nat) (these : String × Handle → Prop) :
    Prop where
  serial_lt : serial < workspace.started
  issued : ∀ session ∈ workspace.sessions, session.2.serial = serial → id ≤ session.2.issued
  handles : ∀ entry ∈ workspace.handles, entry.2.owner = serial → entry.2.id = id → these entry

/-- **A number that was given out is not given out again**: the handles that have it are those that
had it, and some of them may have been closed. -/
theorem Move.settled (hmove : Move touched workspace ids next) {these : String × Handle → Prop}
    (hclosed : ∀ entry, these entry → these (entry.1, entry.2.closed))
    (h : workspace.Settled serial id these) : next.Settled serial id these where
  serial_lt := Nat.lt_of_lt_of_le h.serial_lt hmove.started_le
  issued := by
    intro session hsession hserial
    rcases hmove.session_origin hsession with ⟨old, hold, hsame, hissued⟩ | hnew
    · exact Nat.le_trans (h.issued old hold (hsame.trans hserial)) hissued
    · exact absurd (hserial.symm.trans hnew) (Nat.ne_of_lt h.serial_lt)
  handles := by
    intro entry hentry howner hid
    rcases hmove.handle_origin hentry with ⟨old, hold, rfl | rfl⟩ | ⟨_, session, hsession, howner',
      hid', -⟩
    · exact h.handles entry hold howner hid
    · exact hclosed old (h.handles old hold howner hid)
    · have hle := h.issued _ (mem_of_lookup hsession) (howner'.symm.trans howner)
      simp only at hle
      omega

theorem Moves.settled (hmoves : Moves touched workspace ids next) {these : String × Handle → Prop}
    (hclosed : ∀ entry, these entry → these (entry.1, entry.2.closed))
    (h : workspace.Settled serial id these) : next.Settled serial id these := by
  induction hmoves with
  | refl => exact h
  | tail _ hmove ih => exact hmove.settled hclosed ih

/-- A number was given out, and no open handle has it. -/
structure Retired (workspace : Workspace) (serial id : Nat) : Prop where
  serial_lt : serial < workspace.started
  issued : ∀ session ∈ workspace.sessions, session.2.serial = serial → id ≤ session.2.issued
  closed : ∀ entry ∈ workspace.handles, entry.2.owner = serial → entry.2.id = id →
    entry.2.isOpen = false

theorem retired_iff_settled : workspace.Retired serial id ↔
    workspace.Settled serial id fun entry => entry.2.isOpen = false :=
  ⟨fun h => ⟨h.serial_lt, h.issued, h.closed⟩, fun h => ⟨h.serial_lt, h.issued, h.handles⟩⟩

/-- All numbers that were given out so far, in order. Those of one session ascend, it has counted
them, and every handle has one of them. -/
structure Given (workspace : Workspace) (given : List (Nat × Nat)) : Prop where
  ascending : given.Pairwise fun a b => a.1 = b.1 → a.2 < b.2
  serial_lt : ∀ number ∈ given, number.1 < workspace.started
  issued : ∀ number ∈ given, ∀ session ∈ workspace.sessions, session.2.serial = number.1 →
    number.2 ≤ session.2.issued
  handles : ∀ entry ∈ workspace.handles, (entry.2.owner, entry.2.id) ∈ given

/-- **The numbers of a session ascend in the order they were given out.** -/
theorem Move.given (hmove : Move touched workspace ids next) (h : workspace.Sound)
    {given : List (Nat × Nat)} (hgiven : workspace.Given given) : next.Given (given ++ ids) where
  ascending := by
    rcases hmove.id_origin h with rfl | ⟨_, session, hsession, rfl, -⟩
    · rw [List.append_nil]
      exact hgiven.ascending
    · refine List.pairwise_append.2 ⟨hgiven.ascending, List.pairwise_singleton _ _, ?_⟩
      intro number hnumber _ hnew
      rw [List.mem_singleton.1 hnew]
      exact fun hserial =>
        Nat.lt_succ_of_le (hgiven.issued number hnumber _ (mem_of_lookup hsession) hserial.symm)
  serial_lt := by
    intro number hnumber
    refine Nat.lt_of_lt_of_le ?_ hmove.started_le
    rcases List.mem_append.1 hnumber with hold | hnew
    · exact hgiven.serial_lt number hold
    · rcases hmove.id_origin h with rfl | ⟨_, session, hsession, rfl, -⟩
      · exact absurd hnew List.not_mem_nil
      · rw [List.mem_singleton.1 hnew]
        exact h.serial_lt _ (mem_of_lookup hsession)
  issued := by
    intro number hnumber session hsession hserial
    rcases List.mem_append.1 hnumber with hold | hnew
    · rcases hmove.session_origin hsession with ⟨old, holdMem, hsame, hissued⟩ | hstarted
      · exact Nat.le_trans (hgiven.issued number hold old holdMem (hsame.trans hserial)) hissued
      · exact absurd (hserial.symm.trans hstarted) (Nat.ne_of_lt (hgiven.serial_lt number hold))
    · rcases hmove.id_origin h with rfl | ⟨_, opener, _, rfl, hcounted⟩
      · exact absurd hnew List.not_mem_nil
      · rw [List.mem_singleton.1 hnew] at hserial ⊢
        exact hcounted session hsession hserial
  handles := by
    intro entry hentry
    rcases hmove.handle_origin hentry with
      ⟨old, hold, rfl | rfl⟩ | ⟨_, session, _, howner, hid, hmem⟩
    · exact List.mem_append_left _ (hgiven.handles entry hold)
    · exact List.mem_append_left _ (hgiven.handles old hold)
    · rw [howner, hid]
      exact List.mem_append_right _ hmem

theorem Moves.given (hmoves : Moves touched workspace ids next) (h : workspace.Sound)
    {given : List (Nat × Nat)} (hgiven : workspace.Given given) :
    next.Given (given ++ ids) := by
  induction hmoves with
  | refl => rwa [List.append_nil]
  | tail hmoves hmove ih =>
    rw [← List.append_assoc]
    exact hmove.given (hmoves.sound h) ih

end Workspace

end RomArchive
