import RomArchive.Proofs.Registry.Moves

/-!
# The two places agree

Every move keeps names and numbers unique, and leaves each session with exactly the numbers of its
open handles. Most moves change sessions and handles where they stand, and for these one lemma does
the bookkeeping: what is left to each is why the two lists agree afterwards.

## Main results

* `Workspace.Sound.map` — changes in place
* `Workspace.Sound.closeHandle`, `Workspace.Sound.closeAll`, `Workspace.Sound.opened` — the moves
  that change the lists
* `Workspace.Moves.sound` — the two places agree after any moves
-/

namespace RomArchive

namespace Workspace

variable {workspace next : Workspace} {touched : Nat → Prop} {ids : List (Nat × Nat)}
  {serial id : Nat}

/-! ### The two places agree -/

theorem mem_openIds {handles : List (String × Handle)} : id ∈ openIds handles serial ↔
    ∃ entry ∈ handles, entry.2.owner = serial ∧ entry.2.isOpen = true ∧ entry.2.id = id := by
  simp only [openIds, List.mem_map, List.mem_filter, Bool.and_eq_true, decide_eq_true_eq,
    and_assoc]

theorem openIds_append (handles more : List (String × Handle)) :
    openIds (handles ++ more) serial = openIds handles serial ++ openIds more serial := by
  rw [openIds, List.filter_append, List.map_append]
  rfl

theorem openIds_singleton (entry : String × Handle) : openIds [entry] serial
    = if entry.2.owner = serial && entry.2.isOpen then [entry.2.id] else [] := by
  rw [openIds, List.filter_cons]
  split <;> rfl

/-- A session lists no number that it did not give out. -/
theorem Sound.le_issued (h : workspace.Sound) {name : String} {session : Session}
    (hmem : (name, session) ∈ workspace.sessions) (hid : id ∈ session.live) :
    id ≤ session.issued := by
  rw [h.live _ hmem] at hid
  obtain ⟨entry, hentry, howner, -, rfl⟩ := mem_openIds.1 hid
  exact h.issued _ hmem entry hentry howner

/-- A change of the sessions and the handles where they stand keeps names and numbers. What is left
to be seen is that no handle is opened, and that sessions still list the right numbers. -/
theorem Sound.map (h : workspace.Sound) (tree : FileTree)
    {f : String × Session → String × Session} {g : String × Handle → String × Handle}
    (hname : ∀ entry, (f entry).1 = entry.1)
    (hserial : ∀ entry ∈ workspace.sessions, (f entry).2.serial = entry.2.serial)
    (hissued : ∀ entry ∈ workspace.sessions, entry.2.issued ≤ (f entry).2.issued)
    (hkey : ∀ entry, (g entry).1 = entry.1 ∧ (g entry).2.owner = entry.2.owner ∧
      (g entry).2.id = entry.2.id)
    (hopen : ∀ entry, (g entry).2.isOpen = true → entry.2.isOpen = true)
    (hlive : ∀ entry ∈ workspace.sessions,
      (f entry).2.live = openIds (workspace.handles.map g) entry.2.serial) :
    Sound { workspace with
      tree := tree
      sessions := workspace.sessions.map f
      handles := workspace.handles.map g } where
  sessionNames := by
    refine List.pairwise_map.2 (h.sessionNames.imp fun hne => ?_)
    rwa [hname, hname]
  serials := by
    refine List.pairwise_map.2 (h.serials.imp_of_mem fun ha hb hne => ?_)
    rwa [hserial _ ha, hserial _ hb]
  handleNames := by
    refine List.pairwise_map.2 (h.handleNames.imp fun hne => ?_)
    rwa [(hkey _).1, (hkey _).1]
  ascending := by
    refine List.pairwise_map.2 (h.ascending.imp fun hlt => ?_)
    rwa [(hkey _).2.1, (hkey _).2.1, (hkey _).2.2, (hkey _).2.2]
  serial_lt := by
    intro _ hmem
    obtain ⟨entry, hentry, rfl⟩ := List.mem_map.1 hmem
    rw [hserial entry hentry]
    exact h.serial_lt entry hentry
  owner_lt := by
    intro _ hmem
    obtain ⟨entry, hentry, rfl⟩ := List.mem_map.1 hmem
    rw [(hkey entry).2.1]
    exact h.owner_lt entry hentry
  issued := by
    intro _ hfirst _ hsecond howner
    obtain ⟨session, hsession, rfl⟩ := List.mem_map.1 hfirst
    obtain ⟨entry, hentry, rfl⟩ := List.mem_map.1 hsecond
    rw [(hkey entry).2.1, hserial session hsession] at howner
    rw [(hkey entry).2.2]
    exact Nat.le_trans (h.issued session hsession entry hentry howner)
      (hissued session hsession)
  live := by
    intro _ hmem
    obtain ⟨entry, hentry, rfl⟩ := List.mem_map.1 hmem
    rw [hserial entry hentry]
    exact hlive entry hentry
  orphans := by
    intro _ hmem hisOpen
    obtain ⟨entry, hentry, rfl⟩ := List.mem_map.1 hmem
    obtain ⟨session, hsession, hserialEq⟩ := h.orphans entry hentry (hopen entry hisOpen)
    refine ⟨f session, List.mem_map_of_mem hsession, ?_⟩
    rw [hserial session hsession, (hkey entry).2.1, hserialEq]

/-- Another session under a name leaves the serial numbers as they are, if it has the old one's. -/
theorem Sound.serial_replaced (h : workspace.Sound) {name : String} {session other : Session}
    (hsession : workspace.session? name = some session) (hserial : other.serial = session.serial)
    {entry : String × Session} (hentry : entry ∈ workspace.sessions) :
    (if entry.1 = name then other else entry.2).serial = entry.2.serial := by
  by_cases hname : entry.1 = name
  · rw [if_pos hname, hserial, eq_of_lookup h.sessionNames hsession hentry hname]
  · rw [if_neg hname]

/-- Another session under a name, with the same serial number and the same list. -/
theorem Sound.replace (h : workspace.Sound) {name : String} {session other : Session}
    (hsession : workspace.session? name = some session) (hserial : other.serial = session.serial)
    (hlive : other.live = session.live) (hissued : session.issued ≤ other.issued) :
    (workspace.replace name other).Sound := by
  have hfound : ∀ entry ∈ workspace.sessions, entry.1 = name → entry.2 = session :=
    fun entry hentry => eq_of_lookup h.sessionNames hsession hentry
  have hmap := h.map workspace.tree (g := id)
    (f := fun entry => (entry.1, if entry.1 = name then other else entry.2)) (fun _ => rfl)
    (fun entry hentry => h.serial_replaced hsession hserial hentry) (fun entry hentry => ?_)
    (fun _ => ⟨rfl, rfl, rfl⟩) (fun _ hisOpen => hisOpen) (fun entry hentry => ?_)
  · rwa [List.map_id] at hmap
  · by_cases hname : entry.1 = name
    · rw [if_pos hname, hfound entry hentry hname]
      exact hissued
    · exact Nat.le_of_eq (by rw [if_neg hname])
  · rw [List.map_id, ← h.live entry hentry]
    by_cases hname : entry.1 = name
    · rw [if_pos hname, hlive, hfound entry hentry hname]
    · rw [if_neg hname]

/-! ### Closing -/

/-- Two handles of a session with one number are one. -/
theorem Sound.eq_of_id_eq (h : workspace.Sound) {a b : String × Handle}
    (ha : a ∈ workspace.handles) (hb : b ∈ workspace.handles) (howner : a.2.owner = b.2.owner)
    (hid : a.2.id = b.2.id) : a = b := by
  rcases rel_or_rel h.ascending ha hb with heq | hlt | hlt
  · exact heq
  · exact absurd (hlt howner) (by omega)
  · exact absurd (hlt howner.symm) (by omega)

/-- What does not concern the handles of a session does not concern its open handles. -/
theorem openIds_map {g : String × Handle → String × Handle} {handles : List (String × Handle)}
    (howner : ∀ entry, (g entry).2.owner = entry.2.owner)
    (hsame : ∀ entry ∈ handles, entry.2.owner = serial → g entry = entry) :
    openIds (handles.map g) serial = openIds handles serial := by
  refine congrArg _ (filter_map_eq (fun entry hentry => ?_) fun entry hentry hp => ?_)
  · by_cases hserial : entry.2.owner = serial
    · rw [hsame entry hentry hserial]
    · simp [howner, hserial]
  · simp only [Bool.and_eq_true, decide_eq_true_eq] at hp
    exact hsame entry hentry hp.1

/-- One handle less is open. -/
theorem openIds_closeName {name : String} {handles : List (String × Handle)}
    (hkey : ∀ entry ∈ handles, entry.1 = name ↔ entry.2.owner = serial ∧ entry.2.id = id) :
    openIds (handles.map (closeName name)) serial = (openIds handles serial).filter (· ≠ id) := by
  induction handles with
  | nil => rfl
  | cons entry handles ih =>
    have hrest := ih fun later hlater => hkey later (List.mem_cons_of_mem _ hlater)
    have hhead : openIds [closeName name entry] serial
        = (openIds [entry] serial).filter (· ≠ id) := by
      have hthis := hkey entry List.mem_cons_self
      rw [openIds_singleton, openIds_singleton]
      by_cases hname : entry.1 = name
      · obtain ⟨howner, hid⟩ := hthis.1 hname
        cases hopen : entry.2.isOpen <;> simp [closeName, hname, howner, hid]
      · by_cases howner : entry.2.owner = serial
        · have hid : entry.2.id ≠ id := fun hid => hname (hthis.2 ⟨howner, hid⟩)
          cases hopen : entry.2.isOpen <;> simp [closeName, hname, howner, hid, hopen]
        · simp [closeName, hname, howner]
    rw [List.map_cons, ← List.singleton_append, openIds_append, hhead, hrest,
      ← List.filter_append, ← openIds_append, List.singleton_append]

/-- A name and an identity belong to the same handle. -/
theorem Sound.name_iff (h : workspace.Sound) {name : String} {handle : Handle}
    (hhandle : workspace.handle? name = some handle) {entry : String × Handle}
    (hentry : entry ∈ workspace.handles) :
    entry.1 = name ↔ entry.2.owner = handle.owner ∧ entry.2.id = handle.id := by
  constructor
  · intro hname
    rw [eq_of_lookup h.handleNames hhandle hentry hname]
    exact ⟨rfl, rfl⟩
  · rintro ⟨howner, hid⟩
    rw [h.eq_of_id_eq hentry (mem_of_lookup hhandle) howner hid]

theorem Sound.closeHandle (h : workspace.Sound) {name : String} {handle : Handle}
    (hhandle : workspace.handle? name = some handle) : (workspace.closeHandle name).Sound := by
  cases hopen : handle.isOpen with
  | false =>
    rwa [closeHandle_of_not_isOpen hhandle hopen]
  | true =>
    rw [closeHandle_of_isOpen hhandle hopen]
    refine h.map workspace.tree (fun _ => rfl) (fun entry _ => ?_) (fun entry _ => ?_)
      (closeName_key name) (fun entry hisOpen => (isOpen_of_closeName hisOpen).2)
      (fun entry hentry => ?_)
    · exact (forgetHandle_key handle entry).1
    · exact Nat.le_of_eq (forgetHandle_key handle entry).2.1.symm
    · rw [forgetHandle]
      by_cases hserial : entry.2.serial = handle.owner
      · have hkey : ∀ other ∈ workspace.handles,
            other.1 = name ↔ other.2.owner = entry.2.serial ∧ other.2.id = handle.id :=
          fun other hother => by rw [h.name_iff hhandle hother, hserial]
        rw [if_pos hserial, openIds_closeName hkey, ← h.live entry hentry]
        rfl
      · rw [if_neg hserial, h.live entry hentry]
        refine (openIds_map (fun other => (closeName_key name other).2.1) fun other hother howner =>
          ?_).symm
        have hname : other.1 ≠ name := fun hname =>
          hserial (howner ▸ ((h.name_iff hhandle hother).1 hname).1)
        rw [closeName, if_neg hname]

/-- A session lists its open handles, so none of its handles remains open. -/
theorem Sound.isOpen_closeListed (h : workspace.Sound) {name : String} {session : Session}
    (hsession : workspace.session? name = some session) {entry : String × Handle}
    (hentry : entry ∈ workspace.handles) (howner : entry.2.owner = session.serial) :
    (closeListed session entry).2.isOpen = false := by
  by_cases hlisted : isListed session entry.2 = true
  · rw [closeListed, if_pos hlisted]
    rfl
  · rw [closeListed, if_neg hlisted]
    cases hopen : entry.2.isOpen with
    | false => rfl
    | true =>
      have hlive := h.live _ (mem_of_lookup hsession)
      have hid : entry.2.id ∈ session.live := by
        rw [hlive]
        exact mem_openIds.2 ⟨entry, hentry, howner, hopen, rfl⟩
      exact absurd (isListed_iff.2 ⟨howner, hid⟩) hlisted

theorem Sound.closeAll (h : workspace.Sound) {name : String} {session : Session}
    (hsession : workspace.session? name = some session) :
    (workspace.closeAll session).1.Sound := by
  rw [closeAll_fst]
  refine h.map workspace.tree (fun _ => rfl) (fun entry _ => ?_) (fun entry _ => ?_)
    (closeListed_key session) (fun entry hopen => ?_) (fun entry hentry => ?_)
  · rw [clearLive]
    split <;> rfl
  · rw [clearLive]
    split <;> exact Nat.le_refl _
  · rw [closeListed] at hopen
    split at hopen
    · cases hopen
    · exact hopen
  · rw [clearLive]
    by_cases hserial : entry.2.serial = session.serial
    · rw [if_pos hserial, hserial, eq_comm, openIds, List.map_eq_nil_iff, List.filter_eq_nil_iff]
      intro closed hclosed
      obtain ⟨other, hother, rfl⟩ := List.mem_map.1 hclosed
      simp only [Bool.and_eq_true, decide_eq_true_eq, not_and, Bool.not_eq_true]
      intro howner
      rw [(closeListed_key session other).2.1] at howner
      exact h.isOpen_closeListed hsession hother howner
    · rw [if_neg hserial, h.live entry hentry]
      refine (openIds_map (fun other => (closeListed_key session other).2.1)
        fun other _ howner => ?_).symm
      have hlisted : ¬ isListed session other.2 = true := fun hlisted =>
        hserial (howner ▸ (isListed_iff.1 hlisted).1)
      rw [closeListed, if_neg hlisted]

/-! ### Coming and going -/

/-- Closed handles can go. -/
theorem Sound.filterHandles (h : workspace.Sound) {p : String × Handle → Bool}
    (hclosed : ∀ entry ∈ workspace.handles, p entry = false → entry.2.isOpen = false) :
    Sound { workspace with handles := workspace.handles.filter p } where
  sessionNames := h.sessionNames
  serials := h.serials
  handleNames := h.handleNames.filter p
  ascending := h.ascending.filter p
  serial_lt := h.serial_lt
  owner_lt := fun entry hentry => h.owner_lt entry (List.mem_filter.1 hentry).1
  issued := fun session hsession entry hentry =>
    h.issued session hsession entry (List.mem_filter.1 hentry).1
  live := by
    intro session hsession
    rw [h.live session hsession, openIds, openIds, List.filter_filter]
    refine congrArg _ (List.filter_congr fun entry hentry => ?_)
    cases hp : p entry with
    | true => rw [Bool.and_true]
    | false => rw [hclosed entry hentry hp, Bool.and_false, Bool.and_false]
  orphans := fun entry hentry => h.orphans entry (List.mem_filter.1 hentry).1

/-- Sessions without open handles can go. -/
theorem Sound.filterSessions (h : workspace.Sound) {p : String × Session → Bool}
    (hidle : ∀ entry ∈ workspace.sessions, p entry = false → entry.2.live = []) :
    Sound { workspace with sessions := workspace.sessions.filter p } where
  sessionNames := h.sessionNames.filter p
  serials := h.serials.filter p
  handleNames := h.handleNames
  ascending := h.ascending
  serial_lt := fun entry hentry => h.serial_lt entry (List.mem_filter.1 hentry).1
  owner_lt := h.owner_lt
  issued := fun session hsession => h.issued session (List.mem_filter.1 hsession).1
  live := fun session hsession => h.live session (List.mem_filter.1 hsession).1
  orphans := by
    intro entry hentry hopen
    obtain ⟨session, hsession, hserial⟩ := h.orphans entry hentry hopen
    refine ⟨session, List.mem_filter.2 ⟨hsession, ?_⟩, hserial⟩
    cases hp : p session with
    | true => rfl
    | false =>
      have hlive := h.live session hsession
      rw [hidle session hsession hp, hserial, eq_comm] at hlive
      have hid := mem_openIds.2 ⟨entry, hentry, rfl, hopen, rfl⟩
      rw [hlive] at hid
      exact absurd hid List.not_mem_nil

/-- No handle belongs to a session that is still to start. -/
theorem Sound.openIds_started (h : workspace.Sound) :
    openIds workspace.handles workspace.started = [] := by
  rw [openIds, List.map_eq_nil_iff, List.filter_eq_nil_iff]
  intro entry hentry
  have hlt := h.owner_lt entry hentry
  simp only [Bool.and_eq_true, decide_eq_true_eq, not_and]
  intro howner
  omega

theorem Sound.started (h : workspace.Sound) {name : String} (settings : Settings) (token : String)
    (hvacant : workspace.session? name = none) :
    Sound { workspace with
      sessions := workspace.sessions ++ [(name, Session.new workspace.started settings token)]
      started := workspace.started + 1 } where
  sessionNames := by
    refine List.pairwise_append.2 ⟨h.sessionNames, List.pairwise_singleton _ _, ?_⟩
    intro entry hentry _ hnew
    rw [List.mem_singleton.1 hnew]
    exact fst_ne_of_lookup hvacant entry hentry
  serials := by
    refine List.pairwise_append.2 ⟨h.serials, List.pairwise_singleton _ _, ?_⟩
    intro entry hentry _ hnew
    rw [List.mem_singleton.1 hnew]
    exact Nat.ne_of_lt (h.serial_lt entry hentry)
  handleNames := h.handleNames
  ascending := h.ascending
  serial_lt := by
    intro entry hentry
    rcases List.mem_append.1 hentry with hold | hnew
    · exact Nat.lt_succ_of_lt (h.serial_lt entry hold)
    · rw [List.mem_singleton.1 hnew]
      exact Nat.lt_succ_self _
  owner_lt := fun entry hentry => Nat.lt_succ_of_lt (h.owner_lt entry hentry)
  issued := by
    intro session hsession entry hentry howner
    rcases List.mem_append.1 hsession with hold | hnew
    · exact h.issued session hold entry hentry howner
    · rw [List.mem_singleton.1 hnew] at howner
      exact absurd howner (Nat.ne_of_lt (h.owner_lt entry hentry))
  live := by
    intro session hsession
    rcases List.mem_append.1 hsession with hold | hnew
    · exact h.live session hold
    · rw [List.mem_singleton.1 hnew]
      exact h.openIds_started.symm
  orphans := by
    intro entry hentry hopen
    obtain ⟨session, hsession, hserial⟩ := h.orphans entry hentry hopen
    exact ⟨session, List.mem_append_left _ hsession, hserial⟩

theorem mem_replace {name : String} {other : Session} {entry : String × Session}
    (hentry : entry ∈ (workspace.replace name other).sessions) :
    entry = (name, other) ∨ entry ∈ workspace.sessions ∧ entry.1 ≠ name := by
  obtain ⟨old, hold, rfl⟩ := List.mem_map.1 hentry
  by_cases hname : old.1 = name
  · rw [if_pos hname, hname]
    exact Or.inl rfl
  · rw [if_neg hname]
    exact Or.inr ⟨hold, hname⟩

/-- A session has a serial number of its own. -/
theorem Sound.serial_ne (h : workspace.Sound) {name : String} {session : Session}
    (hsession : workspace.session? name = some session) {entry : String × Session}
    (hentry : entry ∈ workspace.sessions) (hname : entry.1 ≠ name) :
    entry.2.serial ≠ session.serial := by
  rcases rel_or_rel h.serials hentry (mem_of_lookup hsession) with rfl | hne | hne
  · exact absurd rfl hname
  · exact hne
  · exact fun heq => hne heq.symm

theorem Sound.opened (h : workspace.Sound) {name handleName : String} {session : Session}
    (path : String) (container : OpenContainer)
    (hsession : workspace.session? name = some session)
    (hvacant : workspace.handle? handleName = none) :
    Sound { workspace.replace name session.issue with
      handles := workspace.handles ++ [(handleName, newHandle session path container)] } where
  sessionNames := List.pairwise_map.2 h.sessionNames
  serials := by
    have hserial : session.issue.serial = session.serial := rfl
    refine List.pairwise_map.2 (h.serials.imp_of_mem fun ha hb hne => ?_)
    simp only [h.serial_replaced hsession hserial ha, h.serial_replaced hsession hserial hb]
    exact hne
  handleNames := by
    refine List.pairwise_append.2 ⟨h.handleNames, List.pairwise_singleton _ _, ?_⟩
    intro entry hentry _ hnew
    rw [List.mem_singleton.1 hnew]
    exact fst_ne_of_lookup hvacant entry hentry
  ascending := by
    refine List.pairwise_append.2 ⟨h.ascending, List.pairwise_singleton _ _, ?_⟩
    intro entry hentry _ hnew
    rw [List.mem_singleton.1 hnew]
    exact fun howner =>
      Nat.lt_succ_of_le (h.issued _ (mem_of_lookup hsession) entry hentry howner)
  serial_lt := by
    intro entry hentry
    rcases mem_replace hentry with rfl | ⟨hold, -⟩
    · have hlt := h.serial_lt _ (mem_of_lookup hsession)
      exact hlt
    · exact h.serial_lt entry hold
  owner_lt := by
    intro entry hentry
    rcases List.mem_append.1 hentry with hold | hnew
    · exact h.owner_lt entry hold
    · rw [List.mem_singleton.1 hnew]
      exact h.serial_lt _ (mem_of_lookup hsession)
  issued := by
    intro other hother entry hentry howner
    rcases mem_replace hother with rfl | ⟨hold, hname⟩
    · rcases List.mem_append.1 hentry with hentry | hnew
      · exact Nat.le_succ_of_le (h.issued _ (mem_of_lookup hsession) entry hentry howner)
      · rw [List.mem_singleton.1 hnew]
        exact Nat.le_refl _
    · rcases List.mem_append.1 hentry with hentry | hnew
      · exact h.issued other hold entry hentry howner
      · rw [List.mem_singleton.1 hnew] at howner
        exact absurd howner.symm (h.serial_ne hsession hold hname)
  live := by
    intro other hother
    rw [openIds_append, openIds_singleton]
    rcases mem_replace hother with rfl | ⟨hold, hname⟩
    · have hlive := h.live _ (mem_of_lookup hsession)
      show session.live ++ [session.issued + 1] = openIds workspace.handles session.serial ++ _
      rw [← hlive]
      simp [newHandle, Handle.isOpen, Session.issue]
    · have hserial : session.serial ≠ other.2.serial :=
        fun heq => h.serial_ne hsession hold hname heq.symm
      rw [h.live other hold]
      simp [newHandle, hserial]
  orphans := by
    intro entry hentry hopen
    have hsame : session.issue.serial = session.serial := rfl
    have hkept : ∀ other ∈ workspace.sessions,
        ∃ anew ∈ (workspace.replace name session.issue).sessions,
          anew.2.serial = other.2.serial :=
      fun other hother => ⟨_, List.mem_map_of_mem hother, h.serial_replaced hsession hsame hother⟩
    rcases List.mem_append.1 hentry with hold | hnew
    · obtain ⟨other, hother, hserial⟩ := h.orphans entry hold hopen
      obtain ⟨anew, hanew, hsame⟩ := hkept other hother
      exact ⟨anew, hanew, hsame.trans hserial⟩
    · have hfound : ∃ anew ∈ (workspace.replace name session.issue).sessions,
          anew.2.serial = session.serial := hkept (name, session) (mem_of_lookup hsession)
      rw [List.mem_singleton.1 hnew]
      exact hfound

/-! ### What any moves preserve -/

/-- **The two places agree after a move.** -/
theorem Move.sound (hmove : Move touched workspace ids next) (h : workspace.Sound) :
    next.Sound := by
  cases hmove with
  | files tree => exact ⟨h.1, h.2, h.3, h.4, h.5, h.6, h.7, h.8, h.9⟩
  | written scratch hsession => exact h.replace hsession rfl rfl (Nat.le_refl _)
  | spent scratch hsession => exact h.replace hsession rfl rfl (Nat.le_succ _)
  | opened handleName path container hsession hvacant =>
    exact h.opened path container hsession hvacant
  | closed hhandle => exact h.closeHandle hhandle
  | removed hclosed =>
    refine h.filterHandles fun entry hentry hp => ?_
    have hname : entry.1 = _ := Decidable.not_not.1 (of_decide_eq_false hp)
    exact (hclosed _ (hname ▸ lookup_of_mem h.handleNames hentry)).1
  | closedAll hsession => exact h.closeAll hsession
  | ended hsession hidle =>
    refine h.filterSessions fun entry hentry hp => ?_
    have hname : entry.1 = _ := Decidable.not_not.1 (of_decide_eq_false hp)
    rw [eq_of_lookup h.sessionNames hsession hentry hname, hidle]
  | started settings token hvacant => exact h.started settings token hvacant

/-- **The two places agree after any moves.** -/
theorem Moves.sound (hmoves : Moves touched workspace ids next) (h : workspace.Sound) :
    next.Sound := by
  induction hmoves with
  | refl => exact h
  | tail _ hmove ih => exact hmove.sound ih

end Workspace

end RomArchive
