import OpenTfMirror.Discovery

/-!
# Spacing and the last good origin

The mutex of a host protects its cache entry, so between a check and the request
that follows it the entry does not change. Until when an entry bars a request
only moves forward, and the origin of an entry is that of the latest success.
-/

namespace OpenTfMirror.DiscoveryProofs

open TaskProgram TaskLogic Fallible TextOps Outbound Metadata Discovery

section Invariant

variable {U : Type}

/-- No request is sent on account of this entry before then. -/
def blockedUntil (entry : DiscoveryEntry U) : ℕ :=
  max (if entry.origin.isSome then entry.fetchedAt + originLifetime else 0)
    (entry.retryAt.getD 0)

/-- No request for the host is sent before then. -/
def barredUntil (s : Shared U) (hostname : String) : ℕ :=
  (s.cache.lookup hostname).elim 0 blockedUntil

/-- How long after a request with this outcome none is sent. -/
def delay (success : Bool) : ℕ := if success then originLifetime else retryDelay

/-- The task has locked this mutex, and it is that of the host. -/
def Owned (t : ℕ) (hostname : String) (mutex : ℕ) (s : Shared U) : Prop :=
  s.locks.lookup hostname = some mutex ∧ s.owner mutex = some t

/-- The task has locked the mutex of the host. -/
def Holds (t : ℕ) (hostname : String) (s : Shared U) : Prop :=
  ∃ mutex, Owned t hostname mutex s

/-- The retry was barred until then, or the host was discovered since. -/
def Barred (hostname : String) (window : ℕ) (s : Shared U) : Prop :=
  (∃ entry retryAt, s.cache.lookup hostname = some entry ∧ entry.retryAt = some retryAt ∧
    window ≤ retryAt) ∨ s.successes hostname ≠ []

/-- The bar was lifted, or the host was discovered since. -/
def Past (hostname : String) (window : ℕ) (s : Shared U) : Prop :=
  window ≤ s.clock ∨ s.successes hostname ≠ []

/-- A request that began after another completed keeps its distance. -/
def Apart (later earlier : Event) : Prop :=
  ∀ hostname instant success, earlier = .completed hostname instant success →
    ∀ task next, later = .started task hostname next → instant + delay success ≤ next

/-- The answer of a call is the origin of what was the most recent success at some
moment of the call. -/
def MostRecent (hostname : String) (known : ℕ) (result : Except RegistryError U)
    (s : Shared U) : Prop :=
  0 < known → ∃ origin later earlier, result = .ok origin ∧
    s.successes hostname = later ++ origin :: earlier ∧ known ≤ earlier.length + 1

/-- The task has sent no request. -/
def Unsent (t : ℕ) (s : Shared U) : Prop := ∀ event ∈ s.history, event.task ≠ some t

/-- What a call may end with. -/
structure Ending (t : ℕ) (hostname : String) (known : ℕ) (window : Option ℕ)
    (result : Except RegistryError U) (s : Shared U) : Prop where
  recent : MostRecent hostname known result s
  refused : ∀ w, window = some w → s.clock < w → s.successes hostname = [] →
    result = .error .discoveryBackoff ∧ Unsent t s

/-- A finished call. -/
structure Finished (call : Call U) (s : Shared U) : Prop where
  recent : 0 < call.known → ∃ origin later earlier, call.result = .ok origin ∧
    s.successes call.hostname = later ++ origin :: earlier ∧
    call.known ≤ earlier.length + 1 ∧ earlier.length + 1 ≤ call.total
  refused : ∀ w, call.window = some w → call.finished < w → call.total = 0 →
    call.result = .error .discoveryBackoff ∧ Unsent call.task s

/-- The cache entry of a host. -/
structure Entry (s : Shared U) (hostname : String) : Prop where
  origin : (s.cache.lookup hostname).bind DiscoveryEntry.origin = (s.successes hostname).head?
  fetched : ∀ entry, s.cache.lookup hostname = some entry → entry.fetchedAt ≤ s.clock
  retry : ∀ entry retryAt, s.cache.lookup hostname = some entry →
    entry.retryAt = some retryAt → retryAt ≤ s.clock + retryDelay

/-- What the other calls leave alone. -/
structure Frame (t : ℕ) (s s' : Shared U) : Prop where
  clock : s.clock ≤ s'.clock
  locks : ∀ hostname mutex, s.locks.lookup hostname = some mutex →
    s'.locks.lookup hostname = some mutex
  owner : ∀ mutex, s'.owner mutex = some t ↔ s.owner mutex = some t
  inFlight : ∀ e, e.1 = t → (e ∈ s'.inFlight ↔ e ∈ s.inFlight)
  unrecorded : ∀ e, e.1 = t → (e ∈ s'.unrecorded ↔ e ∈ s.unrecorded)
  history : ∀ event ∈ s'.history, event.task = some t → event ∈ s.history
  calls : ∀ call ∈ s'.calls, call.task = t → call ∈ s.calls
  kept : ∀ call ∈ s.calls, call ∈ s'.calls
  successes : ∀ hostname, ∃ later, s'.successes hostname = later ++ s.successes hostname
  held : ∀ hostname, Holds t hostname s → s'.cache.lookup hostname = s.cache.lookup hostname
  barred : ∀ hostname window, Barred hostname window s → Barred hostname window s'

/-- The task's answers are all in the cache. -/
def Settled (t : ℕ) (s : Shared U) : Prop := ∀ e ∈ s.unrecorded, e.1 ≠ t

/-- Moreover it waits for none. -/
def Quiet (t : ℕ) (s : Shared U) : Prop := (∀ e ∈ s.inFlight, e.1 ≠ t) ∧ Settled t s

/-- The call has not ended. -/
def Running (t : ℕ) (s : Shared U) : Prop := ∀ call ∈ s.calls, call.task ≠ t

/-- All that the task owes the cache is this outcome. -/
def Owes (t : ℕ) (hostname : String) (success : Bool) (s : Shared U) : Prop :=
  Holds t hostname s ∧ (∀ e ∈ s.inFlight, e.1 ≠ t) ∧
    ∀ e ∈ s.unrecorded, e.1 = t → e = (t, hostname, success)

theorem frame_refl (t : ℕ) (s : Shared U) : Frame t s s where
  clock := Nat.le_refl _
  locks _ _ h := h
  owner _ := Iff.rfl
  inFlight _ _ := Iff.rfl
  unrecorded _ _ := Iff.rfl
  history _ h _ := h
  calls _ h _ := h
  kept _ h := h
  successes _ := ⟨[], rfl⟩
  held _ _ := rfl
  barred _ _ h := h

theorem Holds.frame {t : ℕ} {hostname : String} {s s' : Shared U} (h : Holds t hostname s)
    (hframe : Frame t s s') : Holds t hostname s' := by
  obtain ⟨mutex, hlock, howner⟩ := h
  exact ⟨mutex, hframe.locks hostname mutex hlock, (hframe.owner mutex).mpr howner⟩

theorem frame_trans (t : ℕ) (s₁ s₂ s₃ : Shared U) (h : Frame t s₁ s₂) (h' : Frame t s₂ s₃) :
    Frame t s₁ s₃ where
  clock := Nat.le_trans h.clock h'.clock
  locks hostname mutex hl := h'.locks hostname mutex (h.locks hostname mutex hl)
  owner mutex := (h'.owner mutex).trans (h.owner mutex)
  inFlight e he := (h'.inFlight e he).trans (h.inFlight e he)
  unrecorded e he := (h'.unrecorded e he).trans (h.unrecorded e he)
  history event hmem htask := h.history event (h'.history event hmem htask) htask
  calls call hmem htask := h.calls call (h'.calls call hmem htask) htask
  kept call hmem := h'.kept call (h.kept call hmem)
  successes hostname := by
    obtain ⟨later, hlater⟩ := h.successes hostname
    obtain ⟨later', hlater'⟩ := h'.successes hostname
    exact ⟨later' ++ later, by rw [hlater', hlater, List.append_assoc]⟩
  held hostname hholds := (h'.held hostname (hholds.frame h)).trans (h.held hostname hholds)
  barred hostname window hbarred := h'.barred hostname window (h.barred hostname window hbarred)

variable [UrlCrate U] [OriginCrate U]

/-- The address of the discovery document can be formed. -/
def Joined (client : RegistryClient U) (hostname : String) : Prop :=
  ∃ url, joinUrl (client.base hostname) ".well-known/terraform.json" = .ok url

/-- What holds between operations. -/
structure Inv (client : RegistryClient U) (s : Shared U) : Prop where
  locksInjective : ∀ hostname hostname' mutex, s.locks.lookup hostname = some mutex →
    s.locks.lookup hostname' = some mutex → hostname = hostname'
  locksOld : ∀ hostname mutex, s.locks.lookup hostname = some mutex → mutex < s.fresh
  flying : ∀ e ∈ s.inFlight, Holds e.1 e.2 s
  single : (s.inFlight.map Prod.snd).Nodup
  pending : ∀ e ∈ s.unrecorded, Holds e.1 e.2.1 s
  apart : s.history.Pairwise Apart
  covered : ∀ hostname instant success, .completed hostname instant success ∈ s.history →
    instant ≤ s.clock ∧ ((hostname, success) ∈ s.unrecorded.map Prod.snd ∨
      instant + delay success ≤ barredUntil s hostname)
  entry : ∀ hostname, Entry s hostname
  joined : ∀ hostname, s.successes hostname ≠ [] → Joined client hostname
  finished : ∀ call ∈ s.calls, Finished call s

/-- What an operation needs. -/
def Pre (client : RegistryClient U) (t : ℕ) : Op U → Shared U → Prop
  | .acquire _, s => Quiet t s
  | .release mutex, s => s.owner mutex = some t ∧ Quiet t s
  | .startDiscovery hostname, s => Holds t hostname s ∧ Quiet t s ∧ Running t s ∧
    barredUntil s hostname ≤ s.clock
  | .awaitDiscovery hostname, s => Holds t hostname s ∧ Settled t s
  | .storeOrigin hostname _, s => Owes t hostname true s ∧ Joined client hostname
  | .recordFailure hostname _, s => Owes t hostname false s
  | .leave hostname known window result, s => Ending t hostname known window result s
  | _, _ => True

/-- The assertions of the proofs. -/
def assertions (client : RegistryClient U) : Assertions (Op U) (Shared U) where
  inv := Inv client
  frame := Frame
  pre := Pre client
  frame_refl := frame_refl
  frame_trans := frame_trans

end Invariant

section Steps

variable {U : Type} {client : RegistryClient U} {t t' : ℕ} {s s' : Shared U} {hostname : String}

/-- The mutex of a host has one holder. -/
theorem Holds.unique (h : Holds t hostname s) (h' : Holds t' hostname s) : t = t' := by
  obtain ⟨mutex, hlock, howner⟩ := h
  obtain ⟨mutex', hlock', howner'⟩ := h'
  have hmutex : mutex = mutex' := Option.some.inj (hlock.symm.trans hlock')
  subst hmutex
  exact Option.some.inj (howner.symm.trans howner')

theorem Holds.of_eq (h : Holds t hostname s) (hlocks : s'.locks = s.locks)
    (howner : ∀ mutex, s.owner mutex = some t → s'.owner mutex = some t) :
    Holds t hostname s' := by
  obtain ⟨mutex, hlock, ho⟩ := h
  exact ⟨mutex, hlocks ▸ hlock, howner mutex ho⟩

theorem Entry.mono (h : Entry s hostname) (hclock : s.clock ≤ s'.clock)
    (hcache : s'.cache.lookup hostname = s.cache.lookup hostname)
    (hsuccesses : s'.successes hostname = s.successes hostname) : Entry s' hostname where
  origin := by
    rw [hcache, hsuccesses]
    exact h.origin
  fetched entry hentry := by
    have hle := h.fetched entry (hcache ▸ hentry)
    omega
  retry entry retryAt hentry hretry := by
    have hle := h.retry entry retryAt (hcache ▸ hentry) hretry
    omega

/-- A finished call stays as it is when discoveries succeed and others begin. -/
theorem Finished.mono {call : Call U} (h : Finished call s)
    (hsuccesses : ∃ later, s'.successes call.hostname = later ++ s.successes call.hostname)
    (hhistory : Unsent call.task s → Unsent call.task s') : Finished call s' where
  recent hknown := by
    obtain ⟨origin, later, earlier, hresult, hlist, hlength⟩ := h.recent hknown
    obtain ⟨new, hnew⟩ := hsuccesses
    exact ⟨origin, new ++ later, earlier, hresult, by rw [hnew, hlist, List.append_assoc], hlength⟩
  refused w hw hfinished htotal := by
    obtain ⟨hresult, hunsent⟩ := h.refused w hw hfinished htotal
    exact ⟨hresult, hhistory hunsent⟩

variable [UrlCrate U] [OriginCrate U]

/-- Steps about mutexes and time: cache and records stay. -/
theorem Inv.mono (h : Inv client s) (hclock : s.clock ≤ s'.clock) (hcache : s'.cache = s.cache)
    (horigins : s'.origins = s.origins) (hhistory : s'.history = s.history)
    (hcalls : s'.calls = s.calls) (hunrecorded : s'.unrecorded = s.unrecorded)
    (hinFlight : s'.inFlight.Sublist s.inFlight)
    (hinjective : ∀ hostname hostname' mutex, s'.locks.lookup hostname = some mutex →
      s'.locks.lookup hostname' = some mutex → hostname = hostname')
    (hold : ∀ hostname mutex, s'.locks.lookup hostname = some mutex → mutex < s'.fresh)
    (hflying : ∀ e ∈ s'.inFlight, Holds e.1 e.2 s → Holds e.1 e.2 s')
    (hpending : ∀ e ∈ s.unrecorded, Holds e.1 e.2.1 s → Holds e.1 e.2.1 s') : Inv client s' where
  locksInjective := hinjective
  locksOld := hold
  flying e he := hflying e he (h.flying e (hinFlight.subset he))
  single := h.single.sublist (hinFlight.map _)
  pending e he := by
    rw [hunrecorded] at he
    exact hpending e he (h.pending e he)
  apart := hhistory ▸ h.apart
  covered hostname instant success hmem := by
    obtain ⟨hle, hcovered⟩ := h.covered hostname instant success (hhistory ▸ hmem)
    unfold barredUntil at hcovered ⊢
    rw [hunrecorded, hcache]
    exact ⟨Nat.le_trans hle hclock, hcovered⟩
  entry hostname := by
    refine (h.entry hostname).mono hclock (by rw [hcache]) ?_
    unfold Shared.successes
    rw [horigins]
  joined hostname hsuccesses := by
    refine h.joined hostname ?_
    unfold Shared.successes at hsuccesses ⊢
    rwa [horigins] at hsuccesses
  finished call hcall := by
    refine (h.finished call (hcalls ▸ hcall)).mono ⟨[], ?_⟩ fun hunsent => ?_
    · unfold Shared.successes
      rw [horigins, List.nil_append]
    · unfold Unsent at hunsent ⊢
      rw [hhistory]
      exact hunsent

/-- A recorded outcome. The entry bars requests for at least as long as before. -/
theorem inv_record (h : Inv client s) {success : Bool} (howes : Owes t hostname success s)
    {entry : DiscoveryEntry U} {origins : List (String × U)}
    (hs' : s' = { s with
      cache := s.cache.insert hostname entry
      unrecorded := s.unrecorded.filter fun e => e.1 ≠ t
      origins := origins })
    (hbar : barredUntil s hostname ≤ blockedUntil entry)
    (hdelay : s.clock + delay success ≤ blockedUntil entry)
    (horigin : entry.origin = (s'.successes hostname).head?)
    (hfetched : entry.fetchedAt ≤ s.clock)
    (hretry : ∀ retryAt, entry.retryAt = some retryAt → retryAt ≤ s.clock + retryDelay)
    (hsame : ∀ hostname', hostname' ≠ hostname → s'.successes hostname' = s.successes hostname')
    (hgrown : ∃ later, s'.successes hostname = later ++ s.successes hostname)
    (hjoined : s'.successes hostname ≠ [] → Joined client hostname) : Inv client s' := by
  have hlookup : s'.cache.lookup hostname = some entry := by
    rw [hs']
    exact AList.lookup_insert _
  have hother : ∀ hostname', hostname' ≠ hostname →
      s'.cache.lookup hostname' = s.cache.lookup hostname' := by
    intro hostname' hne
    rw [hs']
    exact AList.lookup_insert_ne hne
  have hclock : s'.clock = s.clock := by rw [hs']
  have hhistory : s'.history = s.history := by rw [hs']
  have hholds : ∀ t' hostname', Holds t' hostname' s → Holds t' hostname' s' := by
    intro t' hostname' hholds
    refine hholds.of_eq (by rw [hs']) fun mutex howner => ?_
    rw [hs']
    exact howner
  have hunrecorded : ∀ e, e ∈ s'.unrecorded ↔ e ∈ s.unrecorded ∧ e.1 ≠ t := by
    intro e
    rw [hs']
    simp
  constructor
  · rw [hs']
    exact h.locksInjective
  · rw [hs']
    exact h.locksOld
  · intro e he
    rw [hs'] at he
    exact hholds e.1 e.2 (h.flying e he)
  · rw [hs']
    exact h.single
  · intro e he
    exact hholds e.1 e.2.1 (h.pending e ((hunrecorded e).mp he).1)
  · rw [hhistory]
    exact h.apart
  · intro hostname' instant success' hmem
    rw [hhistory] at hmem
    obtain ⟨hle, hcovered⟩ := h.covered hostname' instant success' hmem
    refine ⟨by omega, ?_⟩
    rcases hcovered with hpending | hcovered
    · obtain ⟨e, he, heq⟩ := List.mem_map.mp hpending
      by_cases ht : e.1 = t
      · have howed := howes.2.2 e he ht
        rw [howed] at heq
        cases heq
        right
        have hbarred : barredUntil s' hostname = blockedUntil entry := by
          unfold barredUntil
          rw [hlookup]
          rfl
        omega
      · exact .inl (List.mem_map.mpr ⟨e, (hunrecorded e).mpr ⟨he, ht⟩, heq⟩)
    · right
      refine Nat.le_trans hcovered ?_
      by_cases heq : hostname' = hostname
      · subst heq
        refine Nat.le_trans hbar ?_
        unfold barredUntil
        rw [hlookup]
        exact Nat.le_refl _
      · unfold barredUntil
        rw [hother hostname' heq]
  · intro hostname'
    by_cases heq : hostname' = hostname
    · subst heq
      refine ⟨by rw [hlookup]; exact horigin, fun e he => ?_, fun e retryAt he hr => ?_⟩
      · rw [hlookup] at he
        cases he
        omega
      · rw [hlookup] at he
        cases he
        rw [hclock]
        exact hretry retryAt hr
    · exact (h.entry hostname').mono (Nat.le_of_eq hclock.symm) (hother hostname' heq)
        (hsame hostname' heq)
  · intro hostname' hsuccesses
    by_cases heq : hostname' = hostname
    · subst heq
      exact hjoined hsuccesses
    · rw [hsame hostname' heq] at hsuccesses
      exact h.joined hostname' hsuccesses
  · intro call hcall
    have hcall' : call ∈ s.calls := by
      rw [hs'] at hcall
      exact hcall
    refine (h.finished call hcall').mono ?_ fun hunsent => ?_
    · by_cases heq : call.hostname = hostname
      · rw [heq]
        exact hgrown
      · exact ⟨[], hsame _ heq⟩
    · unfold Unsent at hunsent ⊢
      rw [hhistory]
      exact hunsent

/-- A request begins, when the entry does not bar it. -/
theorem inv_start (h : Inv client s) (hpre : Pre client t (.startDiscovery hostname) s) :
    Inv client { s with
      inFlight := (t, hostname) :: s.inFlight
      history := .started t hostname s.clock :: s.history } := by
  obtain ⟨hholds, hquiet, hrunning, hbarred⟩ := hpre
  refine ⟨h.locksInjective, h.locksOld, ?_, ?_, h.pending, ?_, ?_, ?_, h.joined, ?_⟩
  · intro e he
    rcases List.mem_cons.mp he with rfl | he
    · exact hholds
    · exact h.flying e he
  · refine List.nodup_cons.mpr ⟨fun hmem => ?_, h.single⟩
    obtain ⟨e, he, heq⟩ := List.mem_map.mp hmem
    dsimp only at heq
    subst heq
    exact hquiet.1 e he (hholds.unique (h.flying e he)).symm
  · refine List.pairwise_cons.mpr ⟨fun earlier hearlier => ?_, h.apart⟩
    intro host instant success heq task next hlater
    cases hlater
    subst heq
    obtain ⟨-, hcovered⟩ := h.covered hostname instant success hearlier
    rcases hcovered with hpending | hcovered
    · obtain ⟨e, he, heq⟩ := List.mem_map.mp hpending
      have hhost : e.2.1 = hostname := congrArg Prod.fst heq
      have hother := h.pending e he
      rw [hhost] at hother
      exact absurd (hholds.unique hother).symm (hquiet.2 e he)
    · exact Nat.le_trans hcovered hbarred
  · intro host instant success hmem
    rcases List.mem_cons.mp hmem with heq | hmem
    · cases heq
    · exact h.covered host instant success hmem
  · intro host
    exact (h.entry host).mono (Nat.le_refl _) rfl rfl
  · intro call hcall
    refine (h.finished call hcall).mono ⟨[], rfl⟩ fun hunsent event hevent => ?_
    rcases List.mem_cons.mp hevent with rfl | hevent
    · intro heq
      exact hrunning call hcall (Option.some.inj heq).symm
    · exact hunsent event hevent

/-- An answer arrives. -/
theorem inv_arrive (h : Inv client s) (document : Document U) (hholds : Holds t hostname s) :
    Inv client (s.arrive client t hostname document) := by
  refine ⟨h.locksInjective, h.locksOld, ?_, ?_, ?_, ?_, ?_, ?_, h.joined, ?_⟩
  · intro e he
    exact h.flying e (List.mem_filter.mp he).1
  · exact h.single.sublist (List.filter_sublist.map _)
  · intro e he
    rcases List.mem_cons.mp he with rfl | he
    · exact hholds
    · exact h.pending e he
  · refine List.pairwise_cons.mpr ⟨fun earlier _ => ?_, h.apart⟩
    intro _ _ _ _ _ _ hlater
    cases hlater
  · intro host instant success hmem
    rcases List.mem_cons.mp hmem with heq | hmem
    · cases heq
      exact ⟨Nat.le_refl _, .inl List.mem_cons_self⟩
    · obtain ⟨hle, hcovered⟩ := h.covered host instant success hmem
      refine ⟨hle, ?_⟩
      rcases hcovered with hpending | hcovered
      · exact .inl (List.mem_cons_of_mem _ hpending)
      · exact .inr hcovered
  · intro host
    exact (h.entry host).mono (Nat.le_refl _) rfl rfl
  · intro call hcall
    refine (h.finished call hcall).mono ⟨[], rfl⟩ fun hunsent event hevent => ?_
    rcases List.mem_cons.mp hevent with rfl | hevent
    · exact nofun
    · exact hunsent event hevent

/-- A call ends. -/
theorem inv_leave (h : Inv client s) {known : ℕ} {window : Option ℕ}
    {result : Except RegistryError U} (hending : Ending t hostname known window result s) :
    Inv client { s with
      calls := ⟨t, hostname, known, window, (s.successes hostname).length, s.clock, result⟩ ::
        s.calls } := by
  refine ⟨h.locksInjective, h.locksOld, h.flying, h.single, h.pending, h.apart, h.covered, ?_,
    h.joined, ?_⟩
  · intro host
    exact (h.entry host).mono (Nat.le_refl _) rfl rfl
  · intro call hcall
    rcases List.mem_cons.mp hcall with rfl | hcall
    · refine ⟨fun hknown => ?_, fun w hw hfinished htotal => ?_⟩
      · obtain ⟨origin, later, earlier, hresult, hlist, hlength⟩ := hending.recent hknown
        refine ⟨origin, later, earlier, hresult, hlist, hlength, ?_⟩
        have htotal := congrArg List.length hlist
        simp only [List.length_append, List.length_cons] at htotal
        dsimp only
        omega
      · exact hending.refused w hw hfinished (List.length_eq_zero_iff.mp htotal)
    · exact (h.finished call hcall).mono ⟨[], rfl⟩ fun hunsent => hunsent

omit [UrlCrate U] [OriginCrate U] in
/-- An entry bars until its lifetime and its delay are over. -/
theorem blockedUntil_le {entry : DiscoveryEntry U} {bound : ℕ}
    (horigin : entry.origin.isSome = true → entry.fetchedAt + originLifetime ≤ bound)
    (hretry : ∀ retryAt, entry.retryAt = some retryAt → retryAt ≤ bound) :
    blockedUntil entry ≤ bound := by
  have hlater : entry.retryAt.getD 0 ≤ bound := by
    cases hr : entry.retryAt with
    | none => exact Nat.zero_le _
    | some retryAt => exact hretry retryAt hr
  refine Nat.max_le.mpr ⟨?_, hlater⟩
  split
  · next hsome => exact horigin hsome
  · exact Nat.zero_le _

omit [UrlCrate U] [OriginCrate U] in
/-- The bars of the entry that replaces another. -/
theorem barredUntil_le (h : Entry s hostname) {bound : ℕ}
    (horigin : ∀ entry, s.cache.lookup hostname = some entry → entry.origin.isSome →
      entry.fetchedAt + originLifetime ≤ bound)
    (hretry : s.clock + retryDelay ≤ bound) : barredUntil s hostname ≤ bound := by
  unfold barredUntil
  cases hlookup : s.cache.lookup hostname with
  | none => exact Nat.zero_le _
  | some entry =>
    exact blockedUntil_le (horigin entry hlookup) fun retryAt hr =>
      Nat.le_trans (h.retry entry retryAt hlookup hr) hretry

omit [UrlCrate U] [OriginCrate U] in
theorem storeOrigin_successes (s : Shared U) (t : ℕ) (hostname : String) (origin : U)
    (hostname' : String) : (s.storeOrigin t hostname origin).successes hostname' =
      if hostname' = hostname then origin :: s.successes hostname' else s.successes hostname' := by
  unfold Shared.storeOrigin Shared.successes
  by_cases heq : hostname' = hostname
  · subst heq
    simp
  · simp [heq, Ne.symm heq]

/-- A successful discovery is recorded. -/
theorem inv_store (h : Inv client s) (howes : Owes t hostname true s)
    (hjoined : Joined client hostname) (origin : U) :
    Inv client (s.storeOrigin t hostname origin) := by
  have hentry := h.entry hostname
  have hbound : blockedUntil ⟨some origin, s.clock, none⟩ = s.clock + originLifetime := by
    simp [blockedUntil]
  refine inv_record h howes rfl ?_ ?_ ?_ (Nat.le_refl _) nofun ?_ ?_ fun _ => hjoined
  · rw [hbound]
    refine barredUntil_le hentry (fun entry hlookup _ => ?_) ?_
    · have hfetched := hentry.fetched entry hlookup
      omega
    · unfold retryDelay originLifetime
      omega
  · rw [hbound]
    exact Nat.le_refl _
  · rw [storeOrigin_successes, if_pos rfl]
    rfl
  · intro hostname' hne
    rw [storeOrigin_successes, if_neg hne]
  · exact ⟨[origin], by rw [storeOrigin_successes, if_pos rfl]; rfl⟩

/-- A failed discovery is recorded. -/
theorem inv_failure (h : Inv client s) (howes : Owes t hostname false s) (error : RegistryError) :
    Inv client (s.recordFailure t hostname error).2 := by
  have hentry := h.entry hostname
  have horigin := hentry.origin
  unfold Shared.recordFailure
  dsimp only
  have hbound : s.clock + retryDelay ≤
      blockedUntil { (s.cache.lookup hostname).getD ⟨none, s.clock, none⟩ with
        retryAt := some (s.clock + retryDelay) } :=
    Nat.le_max_right _ _
  refine inv_record h howes rfl ?_ hbound ?_ ?_ ?_ (fun _ _ => rfl) ⟨[], rfl⟩ (h.joined hostname)
  · refine barredUntil_le hentry (fun entry hlookup hsome => ?_) hbound
    rw [hlookup]
    unfold blockedUntil
    simp only [Option.getD_some, hsome, if_true]
    exact Nat.le_max_left _ _
  · cases hlookup : s.cache.lookup hostname with
    | none =>
      rw [hlookup] at horigin
      exact horigin
    | some entry =>
      rw [hlookup] at horigin
      exact horigin
  · cases hlookup : s.cache.lookup hostname with
    | none => exact Nat.le_refl _
    | some entry => exact hentry.fetched entry hlookup
  · intro retryAt heq
    cases heq
    exact Nat.le_refl _

end Steps

section Frames

variable {U : Type} {client : RegistryClient U} {t t' : ℕ} {s s' : Shared U} {hostname : String}

/-- A task that frames are kept from. -/
theorem filter_of_ne {α : Type} {l : List (ℕ × α)} {e : ℕ × α} (he : e.1 ≠ t) :
    e ∈ l.filter (fun e => e.1 ≠ t) ↔ e ∈ l := by
  simp [he]

/-- The bar of a host whose entry and origins stay. -/
theorem Barred.mono {window : ℕ} (h : Barred hostname window s)
    (hcache : s'.cache.lookup hostname = s.cache.lookup hostname)
    (hsuccesses : s'.successes hostname = s.successes hostname) : Barred hostname window s' := by
  unfold Barred at h ⊢
  rw [hcache, hsuccesses]
  exact h

/-- A recorded outcome leaves the other tasks alone. -/
theorem frame_record (howns : Holds t hostname s) (hne : t' ≠ t) {entry : DiscoveryEntry U}
    {origins : List (String × U)} (hs' : s' = { s with
      cache := s.cache.insert hostname entry
      unrecorded := s.unrecorded.filter fun e => e.1 ≠ t
      origins := origins })
    (hsuccesses : ∀ hostname', ∃ later, s'.successes hostname' = later ++ s.successes hostname')
    (hsame : ∀ hostname', hostname' ≠ hostname → s'.successes hostname' = s.successes hostname')
    (hbarred : ∀ window, Barred hostname window s → Barred hostname window s') :
    Frame t' s s' := by
  have hother : ∀ hostname', hostname' ≠ hostname →
      s'.cache.lookup hostname' = s.cache.lookup hostname' := by
    intro hostname' hne
    rw [hs']
    exact AList.lookup_insert_ne hne
  constructor
  · rw [hs']
  · rw [hs']
    exact fun _ _ h => h
  · rw [hs']
    exact fun _ => Iff.rfl
  · rw [hs']
    exact fun _ _ => Iff.rfl
  · intro e he
    rw [hs']
    exact filter_of_ne (he ▸ hne)
  · rw [hs']
    exact fun _ h _ => h
  · rw [hs']
    exact fun _ h _ => h
  · rw [hs']
    exact fun _ h => h
  · exact hsuccesses
  · intro hostname' hholds
    refine hother hostname' fun heq => ?_
    subst heq
    exact hne (hholds.unique howns)
  · intro hostname' window h
    by_cases heq : hostname' = hostname
    · subst heq
      exact hbarred window h
    · exact h.mono (hother hostname' heq) (hsame hostname' heq)

theorem frame_store (howns : Holds t hostname s) (hne : t' ≠ t) (origin : U) :
    Frame t' s (s.storeOrigin t hostname origin) := by
  refine frame_record howns hne rfl (fun hostname' => ?_) (fun hostname' hother => ?_) ?_
  · rw [storeOrigin_successes]
    split
    · exact ⟨[origin], rfl⟩
    · exact ⟨[], rfl⟩
  · rw [storeOrigin_successes, if_neg hother]
  · intro window _
    right
    rw [storeOrigin_successes, if_pos rfl]
    exact List.cons_ne_nil _ _

theorem frame_failure (howns : Holds t hostname s) (hne : t' ≠ t) (hentry : Entry s hostname)
    (error : RegistryError) : Frame t' s (s.recordFailure t hostname error).2 := by
  refine frame_record howns hne rfl (fun _ => ⟨[], rfl⟩) (fun _ _ => rfl) fun window h => ?_
  rcases h with ⟨entry, retryAt, hlookup, hretry, hle⟩ | hsuccess
  · have hbound := hentry.retry entry retryAt hlookup hretry
    refine .inl ⟨_, s.clock + retryDelay, AList.lookup_insert _, rfl, ?_⟩
    omega
  · exact .inr hsuccess

theorem always_some {α : Type} {result answer : α × Shared U} {choice : Choice U}
    (h : always result choice = some answer) : result = answer := by
  cases choice with
  | ok => exact Option.some.inj h
  | answer document => cases h

/-- The mutexes after one was asked for. -/
theorem lookup_lockFor {mutex : ℕ} {hostname' : String} (h : s.locks.lookup hostname = none)
    (hlookup : (s.locks.insert hostname s.fresh).lookup hostname' = some mutex) :
    (hostname' = hostname ∧ mutex = s.fresh) ∨ s.locks.lookup hostname' = some mutex := by
  by_cases heq : hostname' = hostname
  · subst heq
    rw [AList.lookup_insert] at hlookup
    exact .inl ⟨rfl, (Option.some.inj hlookup).symm⟩
  · rw [AList.lookup_insert_ne heq] at hlookup
    exact .inr hlookup

theorem lookup_kept {mutex : ℕ} {hostname' : String} (h : s.locks.lookup hostname = none)
    (hlookup : s.locks.lookup hostname' = some mutex) :
    (s.locks.insert hostname s.fresh).lookup hostname' = some mutex := by
  rw [AList.lookup_insert_ne, hlookup]
  intro heq
  rw [heq, h] at hlookup
  cases hlookup

/-- The mutex of the host is in the map. -/
theorem lockFor_lookup (s : Shared U) (hostname : String) :
    (s.lockFor hostname).2.locks.lookup hostname = some (s.lockFor hostname).1 := by
  unfold Shared.lockFor
  split
  · next mutex hlookup => exact hlookup
  · exact AList.lookup_insert _

theorem frame_lockFor (t : ℕ) (s : Shared U) (hostname : String) :
    Frame t s (s.lockFor hostname).2 := by
  unfold Shared.lockFor
  split
  · exact frame_refl t s
  · next hnone => exact { frame_refl t s with locks := fun _ _ h => lookup_kept hnone h }

variable [UrlCrate U] [OriginCrate U]

theorem inv_lockFor (h : Inv client s) (hostname : String) :
    Inv client (s.lockFor hostname).2 := by
  unfold Shared.lockFor
  split
  · exact h
  · next hnone =>
      have hholds : ∀ t hostname', Holds t hostname' s → Holds t hostname'
          { s with locks := s.locks.insert hostname s.fresh, fresh := s.fresh + 1 } := by
        intro t hostname' hholds
        obtain ⟨mutex, hlookup, howner⟩ := hholds
        exact ⟨mutex, lookup_kept hnone hlookup, howner⟩
      refine h.mono (Nat.le_refl _) rfl rfl rfl rfl rfl (List.Sublist.refl _) ?_ ?_
        (fun e _ => hholds e.1 e.2) fun e _ => hholds e.1 e.2.1
      · intro hostname₁ hostname₂ mutex h₁ h₂
        rcases lookup_lockFor hnone h₁ with ⟨heq₁, hfresh⟩ | h₁
        · rcases lookup_lockFor hnone h₂ with ⟨heq₂, -⟩ | h₂
          · rw [heq₁, heq₂]
          · have hold := h.locksOld hostname₂ mutex h₂
            omega
        · rcases lookup_lockFor hnone h₂ with ⟨-, hfresh⟩ | h₂
          · have hold := h.locksOld hostname₁ mutex h₁
            omega
          · exact h.locksInjective hostname₁ hostname₂ mutex h₁ h₂
      · intro hostname' mutex hlookup
        dsimp only at hlookup ⊢
        rcases lookup_lockFor hnone hlookup with ⟨-, hfresh⟩ | hlookup
        · omega
        · have hold := h.locksOld hostname' mutex hlookup
          omega

/-- Steps that only change who owns which mutex. -/
theorem Inv.owned (h : Inv client s) {owner : ℕ → Option ℕ} {inFlight : List (ℕ × String)}
    (hs' : s' = { s with owner := owner, inFlight := inFlight })
    (hinFlight : inFlight.Sublist s.inFlight)
    (hflying : ∀ e ∈ inFlight, ∀ mutex, s.owner mutex = some e.1 → owner mutex = some e.1)
    (hpending : ∀ e ∈ s.unrecorded, ∀ mutex, s.owner mutex = some e.1 → owner mutex = some e.1) :
    Inv client s' := by
  subst hs'
  refine h.mono (Nat.le_refl _) rfl rfl rfl rfl rfl hinFlight h.locksInjective h.locksOld ?_ ?_
  · intro e he hholds
    exact hholds.of_eq rfl (hflying e he)
  · intro e he hholds
    exact hholds.of_eq rfl (hpending e he)

/-- Taking a free mutex. -/
theorem inv_acquire (h : Inv client s) {mutex : ℕ} (hfree : s.owner mutex = none) :
    Inv client { s with owner := Function.update s.owner mutex (some t) } := by
  have hkept : ∀ t' mutex', s.owner mutex' = some t' →
      Function.update s.owner mutex (some t) mutex' = some t' := by
    intro t' mutex' howner
    rw [Function.update_of_ne, howner]
    intro heq
    rw [heq, hfree] at howner
    cases howner
  exact h.owned rfl (List.Sublist.refl _) (fun e _ => hkept e.1) fun e _ => hkept e.1

/-- Giving a mutex back. -/
theorem inv_release (h : Inv client s) {mutex : ℕ} (howner : s.owner mutex = some t)
    (hquiet : Quiet t s) : Inv client { s with owner := Function.update s.owner mutex none } := by
  have hkept : ∀ t' mutex', t' ≠ t → s.owner mutex' = some t' →
      Function.update s.owner mutex none mutex' = some t' := by
    intro t' mutex' hne howner'
    rw [Function.update_of_ne, howner']
    intro heq
    rw [heq, howner] at howner'
    exact hne (Option.some.inj howner').symm
  exact h.owned rfl (List.Sublist.refl _) (fun e he mutex' => hkept e.1 mutex' (hquiet.1 e he))
    fun e he mutex' => hkept e.1 mutex' (hquiet.2 e he)

/-- The destructors of a dropped call. -/
theorem inv_dropped (h : Inv client s) (hsettled : Settled t s) : Inv client (s.dropped t) := by
  have hkept : ∀ t' mutex, t' ≠ t → s.owner mutex = some t' →
      (if s.owner mutex = some t then none else s.owner mutex) = some t' := by
    intro t' mutex hne howner
    rw [if_neg, howner]
    intro heq
    exact hne (Option.some.inj (howner.symm.trans heq))
  refine h.owned rfl List.filter_sublist (fun e he mutex => hkept e.1 mutex ?_)
    fun e he mutex => hkept e.1 mutex (hsettled e he)
  have hne := (List.mem_filter.mp he).2
  simpa using hne

omit [UrlCrate U] [OriginCrate U] in
theorem frame_owned {owner : ℕ → Option ℕ} {inFlight : List (ℕ × String)}
    (howner : ∀ mutex, owner mutex = some t ↔ s.owner mutex = some t)
    (hinFlight : ∀ e, e.1 = t → (e ∈ inFlight ↔ e ∈ s.inFlight)) :
    Frame t s { s with owner := owner, inFlight := inFlight } :=
  { frame_refl t s with owner := howner, inFlight := hinFlight }

/-- Every operation keeps the invariant and the frames of the other calls. -/
theorem exec_sound {op : Op U} {choice : Choice U} {answer : Res U op} (hinv : Inv client s)
    (hpre : Pre client t op s) (hexec : exec client t s op choice = some (answer, s')) :
    Inv client s' ∧ ∀ t', t' ≠ t → Frame t' s s' := by
  cases op with
  | readCache hostname | instantNow | enter hostname =>
    cases always_some hexec
    exact ⟨hinv, fun t' _ => frame_refl t' s⟩
  | lockFor hostname =>
    have heq : s.lockFor hostname = (answer, s') := always_some hexec
    have hs' : s' = (s.lockFor hostname).2 := (congrArg Prod.snd heq).symm
    rw [hs']
    exact ⟨inv_lockFor hinv hostname, fun t' _ => frame_lockFor t' s hostname⟩
  | acquire mutex =>
    cases hfree : s.owner mutex with
    | some _ => simp [exec, hfree] at hexec
    | none =>
      simp only [exec, hfree] at hexec
      cases always_some hexec
      refine ⟨inv_acquire hinv hfree, fun t' ht' => ?_⟩
      refine frame_owned (fun mutex' => ?_) fun _ _ => Iff.rfl
      by_cases heq : mutex' = mutex
      · subst heq
        simp [hfree, Ne.symm ht']
      · rw [Function.update_of_ne heq]
  | release mutex =>
    cases always_some hexec
    refine ⟨inv_release hinv hpre.1 hpre.2, fun t' ht' => ?_⟩
    refine frame_owned (fun mutex' => ?_) fun _ _ => Iff.rfl
    by_cases heq : mutex' = mutex
    · subst heq
      simp [hpre.1, Ne.symm ht']
    · rw [Function.update_of_ne heq]
  | startDiscovery hostname =>
    cases always_some hexec
    refine ⟨inv_start hinv hpre, fun t' ht' => ?_⟩
    refine { frame_refl t' s with inFlight := fun e he => ?_, history := fun event hmem htask => ?_ }
    · have hne : e ≠ (t, hostname) := fun heq => ht' (he.symm.trans (congrArg Prod.fst heq))
      simp [hne]
    · rcases List.mem_cons.mp hmem with rfl | hmem
      · exact absurd (Option.some.inj htask).symm ht'
      · exact hmem
  | awaitDiscovery hostname =>
    cases choice with
    | ok => cases hexec
    | answer document =>
      cases hexec
      refine ⟨inv_arrive hinv _ hpre.1, fun t' ht' => ?_⟩
      refine { frame_refl t' s with
        inFlight := fun e he => filter_of_ne (he ▸ ht')
        unrecorded := fun e he => ?_
        history := fun event hmem htask => ?_ }
      · have hne : e.1 ≠ t := he ▸ ht'
        refine ⟨fun hmem => ?_, List.mem_cons_of_mem _⟩
        rcases List.mem_cons.mp hmem with heq | hmem
        · exact absurd (congrArg Prod.fst heq) hne
        · exact hmem
      · rcases List.mem_cons.mp hmem with rfl | hmem
        · cases htask
        · exact hmem
  | storeOrigin hostname origin =>
    cases always_some hexec
    exact ⟨inv_store hinv hpre.1 hpre.2 origin, fun t' ht' => frame_store hpre.1.1 ht' origin⟩
  | recordFailure hostname error =>
    have heq : s.recordFailure t hostname error = (answer, s') := always_some hexec
    have hs' : s' = (s.recordFailure t hostname error).2 := (congrArg Prod.snd heq).symm
    rw [hs']
    exact ⟨inv_failure hinv hpre error, fun t' ht' =>
      frame_failure hpre.1 ht' (hinv.entry hostname) error⟩
  | leave hostname known window result =>
    cases always_some hexec
    refine ⟨inv_leave hinv hpre, fun t' ht' => ?_⟩
    refine { frame_refl t' s with
      calls := fun call hmem htask => ?_, kept := fun call hmem => List.mem_cons_of_mem _ hmem }
    rcases List.mem_cons.mp hmem with rfl | hmem
    · exact absurd htask.symm ht'
    · exact hmem

omit [UrlCrate U] [OriginCrate U] in
/-- Dropping a call leaves the others alone. -/
theorem frame_dropped (hne : t' ≠ t) : Frame t' s (s.dropped t) := by
  refine frame_owned (fun mutex => ?_) fun e he => filter_of_ne (he ▸ hne)
  by_cases heq : s.owner mutex = some t
  · simp [heq, Ne.symm hne]
  · rw [if_neg heq]

end Frames

section Rules

variable {U : Type} [UrlCrate U] [OriginCrate U] {client : RegistryClient U} {t : ℕ}
variable {s : Shared U} {hostname : String} {known : ℕ} {window : Option ℕ}

/-- The rules of the task logic at this machine. -/
abbrev Wp (client : RegistryClient U) (t : ℕ) {α : Type} (program : Code U α)
    (Q : α → Shared U → Prop) (s : Shared U) : Prop :=
  wp (assertions client) Policy.free (machine client) t program Q s

/-- What the other calls cannot invalidate. -/
abbrev Keep (client : RegistryClient U) (t : ℕ) (φ : Shared U → Prop) : Prop :=
  Stable (assertions client) t φ

/-- The call under way since a moment when this was known of the host. -/
structure Under (t : ℕ) (hostname : String) (known : ℕ) (window : Option ℕ)
    (s : Shared U) : Prop where
  known : known ≤ (s.successes hostname).length
  barred : ∀ w, window = some w → Barred hostname w s
  quiet : Quiet t s
  running : Running t s

theorem keep_quiet : Keep client t (Quiet t) := by
  intro s s' _ hframe h
  refine ⟨fun e he heq => ?_, fun e he heq => ?_⟩
  · exact h.1 e ((hframe.inFlight e heq).mp he) heq
  · exact h.2 e ((hframe.unrecorded e heq).mp he) heq

theorem keep_running : Keep client t (Running t) := by
  intro s s' _ hframe h call hcall heq
  exact h call (hframe.calls call hcall heq) heq

theorem keep_unsent : Keep client t (Unsent t) := by
  intro s s' _ hframe h event hevent heq
  exact h event (hframe.history event hevent heq) heq

omit [UrlCrate U] [OriginCrate U] in
theorem length_successes {s s' : Shared U} (hframe : Frame t s s') (hostname : String) :
    (s.successes hostname).length ≤ (s'.successes hostname).length := by
  obtain ⟨later, hlater⟩ := hframe.successes hostname
  rw [hlater, List.length_append]
  omega

omit [UrlCrate U] [OriginCrate U] in
theorem successes_ne_nil {s s' : Shared U} (hframe : Frame t s s')
    (h : s.successes hostname ≠ []) : s'.successes hostname ≠ [] := by
  obtain ⟨later, hlater⟩ := hframe.successes hostname
  rw [hlater]
  simp [h]

theorem keep_under : Keep client t (Under t hostname known window) := by
  intro s s' hinv hframe h
  exact ⟨Nat.le_trans h.known (length_successes hframe hostname),
    fun w hw => hframe.barred hostname w (h.barred w hw), keep_quiet s s' hinv hframe h.quiet,
    keep_running s s' hinv hframe h.running⟩

theorem keep_past (w : ℕ) : Keep client t (Past hostname w) := by
  intro s s' _ hframe h
  rcases h with hclock | hsuccess
  · exact .inl (Nat.le_trans hclock hframe.clock)
  · exact .inr (successes_ne_nil hframe hsuccess)

/-- An answer stays right, and a refusal stays a refusal. -/
theorem keep_ending (result : Except RegistryError U) :
    Keep client t (Ending t hostname known window result) := by
  intro s s' hinv hframe h
  refine ⟨fun hknown => ?_, fun w hw hclock hnone => ?_⟩
  · obtain ⟨origin, later, earlier, hresult, hlist, hlength⟩ := h.recent hknown
    obtain ⟨new, hnew⟩ := hframe.successes hostname
    exact ⟨origin, new ++ later, earlier, hresult, by rw [hnew, hlist, List.append_assoc], hlength⟩
  · have hnone' : s.successes hostname = [] := by
      by_contra hsuccess
      exact successes_ne_nil hframe hsuccess hnone
    have hearlier := hframe.clock
    obtain ⟨hresult, hunsent⟩ := h.refused w hw (by omega) hnone'
    exact ⟨hresult, keep_unsent s s' hinv hframe hunsent⟩

omit [UrlCrate U] [OriginCrate U] in
/-- After the bar was lifted nothing is refused. -/
theorem ending_of_past {result : Except RegistryError U}
    (hrecent : MostRecent hostname known result s)
    (hpast : ∀ w, window = some w → Past hostname w s) :
    Ending t hostname known window result s := by
  refine ⟨hrecent, fun w hw hclock hnone => ?_⟩
  rcases hpast w hw with hle | hsuccess
  · omega
  · exact absurd hnone hsuccess

/-- What a call knows of the entry that it read. -/
structure Read (hostname : String) (known : ℕ) (window : Option ℕ) (entry : DiscoveryEntry U)
    (s : Shared U) : Prop where
  origin : ∀ origin, entry.origin = some origin →
    MostRecent hostname known (.ok origin) s ∧ s.successes hostname ≠ []
  unknown : entry.origin = none → known = 0
  barred : ∀ w, window = some w →
    (∃ retryAt, entry.retryAt = some retryAt ∧ w ≤ retryAt) ∨ s.successes hostname ≠ []

theorem keep_read (entry : DiscoveryEntry U) :
    Keep client t (Read hostname known window entry) := by
  intro s s' _ hframe h
  refine ⟨fun origin horigin => ?_, h.unknown, fun w hw => ?_⟩
  · obtain ⟨hrecent, hsuccess⟩ := h.origin origin horigin
    refine ⟨fun hknown => ?_, successes_ne_nil hframe hsuccess⟩
    obtain ⟨origin', later, earlier, hresult, hlist, hlength⟩ := hrecent hknown
    obtain ⟨new, hnew⟩ := hframe.successes hostname
    exact ⟨origin', new ++ later, earlier, hresult, by rw [hnew, hlist, List.append_assoc], hlength⟩
  · rcases h.barred w hw with hretry | hsuccess
    · exact .inl hretry
    · exact .inr (successes_ne_nil hframe hsuccess)

/-- Reading an entry. -/
theorem read_of_lookup (hinv : Inv client s) {entry : DiscoveryEntry U}
    (hlookup : s.cache.lookup hostname = some entry)
    (hknown : known ≤ (s.successes hostname).length)
    (hbarred : ∀ w, window = some w → Barred hostname w s) :
    Read hostname known window entry s := by
  have horigin := (hinv.entry hostname).origin
  rw [hlookup, Option.bind_some] at horigin
  refine ⟨fun origin hsome => ?_, fun hnone => ?_, fun w hw => ?_⟩
  · rw [hsome] at horigin
    obtain ⟨earlier, hlist⟩ := List.head?_eq_some_iff.mp horigin.symm
    refine ⟨fun _ => ⟨origin, [], earlier, rfl, hlist, ?_⟩, ?_⟩
    · rw [hlist, List.length_cons] at hknown
      exact hknown
    · rw [hlist]
      exact List.cons_ne_nil _ _
  · rw [hnone] at horigin
    have hempty := List.head?_eq_none_iff.mp horigin.symm
    rw [hempty, List.length_nil] at hknown
    omega
  · rcases hbarred w hw with ⟨entry', retryAt, hlookup', hretry, hle⟩ | hsuccess
    · rw [hlookup] at hlookup'
      cases hlookup'
      exact .inl ⟨retryAt, hretry, hle⟩
    · exact .inr hsuccess

omit [UrlCrate U] [OriginCrate U] in
/-- A settled entry answers rightly: with its origin, or with a refusal as nothing
was discovered yet. -/
theorem ending_settled {entry : DiscoveryEntry U} (hread : Read hostname known window entry s)
    (hunsent : Unsent t s) : Ending t hostname known window entry.settled s := by
  unfold DiscoveryEntry.settled
  cases horigin : entry.origin with
  | some origin =>
    obtain ⟨hrecent, hsuccess⟩ := hread.origin origin horigin
    exact ⟨hrecent, fun _ _ _ hnone => absurd hnone hsuccess⟩
  | none =>
    have hunknown := hread.unknown horigin
    exact ⟨fun hknown => by omega, fun _ _ _ _ => ⟨rfl, hunsent⟩⟩

/-- Before its request, with the mutex when it is taken already. -/
structure Before (t : ℕ) (hostname : String) (known : ℕ) (window : Option ℕ)
    (locked : Option ℕ) (s : Shared U) : Prop where
  under : Under t hostname known window s
  unsent : Unsent t s
  owned : ∀ mutex ∈ locked, Owned t hostname mutex s

theorem keep_owned (mutex : ℕ) : Keep client t (Owned t hostname mutex) := by
  intro s s' _ hframe h
  exact ⟨hframe.locks hostname mutex h.1, (hframe.owner mutex).mpr h.2⟩

theorem keep_before (locked : Option ℕ) :
    Keep client t (Before t hostname known window locked) := by
  intro s s' hinv hframe h
  exact ⟨keep_under s s' hinv hframe h.under, keep_unsent s s' hinv hframe h.unsent,
    fun mutex hlocked => keep_owned mutex s s' hinv hframe (h.owned mutex hlocked)⟩

/-- What a check leaves: an answer, or the permission to ask. -/
def Checked (t : ℕ) (hostname : String) (known : ℕ) (window : Option ℕ)
    (locked : Option ℕ) (answer : Option (Except RegistryError U)) (s : Shared U) : Prop :=
  match answer with
  | some result => Ending t hostname known window result s
  | none => (∀ w, window = some w → Past hostname w s) ∧
    (locked.isSome → barredUntil s hostname ≤ s.clock)

/-- While the mutex is held the entry that was read stays. -/
theorem keep_entry (locked : Option ℕ) (entry : DiscoveryEntry U) (now : ℕ) :
    Keep client t fun s => Before t hostname known window locked s ∧
      Read hostname known window entry s ∧ now ≤ s.clock ∧
      (locked.isSome → s.cache.lookup hostname = some entry) := by
  intro s s' hinv hframe ⟨hbefore, hread, hnow, hlookup⟩
  refine ⟨keep_before locked s s' hinv hframe hbefore, keep_read entry s s' hinv hframe hread,
    Nat.le_trans hnow hframe.clock, fun hlocked => ?_⟩
  obtain ⟨mutex, hmutex⟩ := Option.isSome_iff_exists.mp hlocked
  rw [hframe.held hostname ⟨mutex, hbefore.owned mutex hmutex⟩]
  exact hlookup hlocked

/-- The check of the cache. -/
theorem checkCache_spec (locked : Option ℕ) (hs : Before t hostname known window locked s) :
    Wp client t (checkCache hostname) (fun answer s' =>
      Before t hostname known window locked s' ∧
        Checked t hostname known window locked answer s') s := by
  unfold checkCache
  refine (wp_bind t _ _ _ s).mpr ?_
  refine wp_call hs (keep_before locked) (fun _ _ _ => trivial)
    fun s₁ choice answer s₂ hinv hs₁ _ hexec _ => ?_
  cases always_some hexec
  refine (wp_done t _ _ _).mpr ?_
  cases hlookup : s₁.cache.lookup hostname with
  | none =>
    refine (wp_done t _ _ _).mpr ⟨hs₁, fun w hw => ?_, fun _ => ?_⟩
    · rcases hs₁.under.barred w hw with ⟨entry, retryAt, hlookup', -⟩ | hsuccess
      · rw [hlookup] at hlookup'
        cases hlookup'
      · exact .inr hsuccess
    · unfold barredUntil
      rw [hlookup]
      exact Nat.zero_le _
  | some entry =>
    have hread := read_of_lookup hinv hlookup hs₁.under.known hs₁.under.barred
    dsimp only
    refine (wp_bind t _ _ _ s₁).mpr ?_
    refine wp_call ⟨hs₁, hread, Nat.zero_le _, fun _ => hlookup⟩ (keep_entry locked entry 0)
      (fun _ _ _ => trivial) fun s₂ choice answer s₃ _ hs₂ _ hexec _ => ?_
    cases always_some hexec
    refine (wp_done t _ _ _).mpr ?_
    split
    · exact (wp_done t _ _ _).mpr ⟨hs₂.1, ending_settled hs₂.2.1 hs₂.1.unsent⟩
    · next hold =>
        have hage : entry.origin.isSome = true → entry.fetchedAt + originLifetime ≤ s₂.clock := by
          intro hsome
          simp only [hsome, Bool.true_and, decide_eq_true_eq] at hold
          have hpositive : 0 < originLifetime := by decide
          omega
        cases hretry : entry.retryAt with
        | none =>
          refine (wp_done t _ _ _).mpr ⟨hs₂.1, fun w hw => ?_, fun hlocked => ?_⟩
          · rcases hs₂.2.1.barred w hw with ⟨retryAt, hretry', -⟩ | hsuccess
            · rw [hretry] at hretry'
              cases hretry'
            · exact .inr hsuccess
          · unfold barredUntil
            rw [hs₂.2.2.2 hlocked]
            refine blockedUntil_le hage fun retryAt hretry' => ?_
            rw [hretry] at hretry'
            cases hretry'
        | some retryAt =>
          dsimp only
          refine (wp_bind t _ _ _ s₂).mpr ?_
          refine wp_call ⟨hs₂.1, hs₂.2.1, Nat.le_refl _, hs₂.2.2.2⟩
            (keep_entry locked entry s₂.clock) (fun _ _ _ => trivial)
            fun s₃ choice answer s₄ _ hs₃ _ hexec _ => ?_
          cases always_some hexec
          refine (wp_done t _ _ _).mpr ?_
          split
          · exact (wp_done t _ _ _).mpr ⟨hs₃.1, ending_settled hs₃.2.1 hs₃.1.unsent⟩
          · next hlate =>
              refine (wp_done t _ _ _).mpr ⟨hs₃.1, fun w hw => ?_, fun hlocked => ?_⟩
              · rcases hs₃.2.1.barred w hw with ⟨retryAt', hretry', hle⟩ | hsuccess
                · rw [hretry] at hretry'
                  cases hretry'
                  exact .inl (by omega)
                · exact .inr hsuccess
              · unfold barredUntil
                rw [hs₃.2.2.2 hlocked]
                refine blockedUntil_le (fun hsome => Nat.le_trans (hage hsome) hs₃.2.2.1) ?_
                intro retryAt' hretry'
                rw [hretry] at hretry'
                cases hretry'
                exact Nat.le_of_not_lt hlate

/-- From the request on: the mutex is held and the bar was lifted. -/
structure After (t : ℕ) (hostname : String) (known : ℕ) (window : Option ℕ) (mutex : ℕ)
    (s : Shared U) : Prop where
  known : known ≤ (s.successes hostname).length
  past : ∀ w, window = some w → Past hostname w s
  running : Running t s
  owned : Owned t hostname mutex s

theorem keep_after {mutex : ℕ} : Keep client t (After t hostname known window mutex) := by
  intro s s' hinv hframe h
  exact ⟨Nat.le_trans h.known (length_successes hframe hostname),
    fun w hw => keep_past w s s' hinv hframe (h.past w hw), keep_running s s' hinv hframe h.running,
    keep_owned mutex s s' hinv hframe h.owned⟩

theorem keep_owes (success : Bool) : Keep client t (Owes t hostname success) := by
  intro s s' _ hframe h
  refine ⟨h.1.frame hframe, fun e he heq => ?_, fun e he heq => ?_⟩
  · exact h.2.1 e ((hframe.inFlight e heq).mp he) heq
  · exact h.2.2 e ((hframe.unrecorded e heq).mp he) heq

theorem keep_settled : Keep client t (Settled t) := by
  intro s s' _ hframe h e he heq
  exact h e ((hframe.unrecorded e heq).mp he) heq

/-- What the code under the mutex leaves. -/
def Requested (t : ℕ) (hostname : String) (known : ℕ) (window : Option ℕ) (mutex : ℕ)
    (result : Except RegistryError U) (s : Shared U) : Prop :=
  (Quiet t s ∧ Running t s ∧ Owned t hostname mutex s) ∧ Ending t hostname known window result s

theorem keep_requested (mutex : ℕ) (result : Except RegistryError U) :
    Keep client t (Requested t hostname known window mutex result) :=
  (keep_quiet.and (keep_running.and (keep_owned mutex))).and (keep_ending result)

omit [UrlCrate U] [OriginCrate U] in
/-- The outcome is in the cache. -/
theorem quiet_recorded {success : Bool} (howes : Owes t hostname success s)
    {cache : AList fun _ : String => DiscoveryEntry U} {origins : List (String × U)} :
    Quiet t { s with
      cache := cache
      unrecorded := s.unrecorded.filter fun e => e.1 ≠ t
      origins := origins } := by
  refine ⟨howes.2.1, fun e he => ?_⟩
  have hne := (List.mem_filter.mp he).2
  simpa using hne

omit [UrlCrate U] [OriginCrate U] in
/-- A failed request is answered with the last good origin. -/
theorem recordFailure_answer (h : Entry s hostname) (error : RegistryError) :
    (s.recordFailure t hostname error).1 =
      ((s.successes hostname).head?).elim (.error error) .ok := by
  rw [← h.origin]
  unfold Shared.recordFailure
  cases s.cache.lookup hostname with
  | none => rfl
  | some entry =>
    dsimp only [Option.getD_some, Option.bind_some]
    cases entry.origin <;> rfl

/-- The answer, stored or not. -/
theorem outcome_spec {mutex : ℕ} (document : Document U)
    (hafter : After t hostname known window mutex s)
    (howes : Owes t hostname (client.discovered document).isOk s) (hjoined : Joined client hostname) :
    Wp client t (do
      match client.discovered document with
      | .ok origin =>
        storeOrigin hostname origin
        return .ok origin
      | .error error => recordFailure hostname error)
      (Requested t hostname known window mutex) s := by
  have hkeep : ∀ success, Keep client t fun s =>
      After t hostname known window mutex s ∧ Owes t hostname success s :=
    fun success => keep_after.and (keep_owes success)
  cases hresult : client.discovered document with
  | ok origin =>
    rw [hresult] at howes
    refine (wp_bind t _ _ _ s).mpr ?_
    refine wp_call ⟨hafter, howes⟩ (hkeep true) (fun _ _ h => ⟨h.2, hjoined⟩)
      fun s₁ choice answer s₂ _ hs₁ _ hexec _ => ?_
    cases always_some hexec
    obtain ⟨hafter₁, howes₁⟩ := hs₁
    have hlist : (s₁.storeOrigin t hostname origin).successes hostname =
        origin :: s₁.successes hostname := by
      rw [storeOrigin_successes, if_pos rfl]
    refine ⟨⟨quiet_recorded howes₁, hafter₁.running, hafter₁.owned⟩, ending_of_past ?_ ?_⟩
    · exact fun _ => ⟨origin, [], _, rfl, hlist, Nat.le_succ_of_le hafter₁.known⟩
    · intro w hw
      right
      rw [hlist]
      exact List.cons_ne_nil _ _
  | error error =>
    rw [hresult] at howes
    refine wp_call ⟨hafter, howes⟩ (hkeep false) (fun _ _ h => h.2)
      fun s₁ choice answer s₂ hinv hs₁ _ hexec _ => ?_
    have heq : s₁.recordFailure t hostname error = (answer, s₂) := always_some hexec
    obtain ⟨hafter₁, howes₁⟩ := hs₁
    have hsuccesses : s₂.successes hostname = s₁.successes hostname := by
      cases heq
      rfl
    have hfst := recordFailure_answer (t := t) (hinv.entry hostname) error
    have hanswer : answer = ((s₁.successes hostname).head?).elim (.error error) .ok :=
      (congrArg Prod.fst heq).symm.trans hfst
    have hclock : s₂.clock = s₁.clock := by
      cases heq
      rfl
    have hplace : Quiet t s₂ ∧ Running t s₂ ∧ Owned t hostname mutex s₂ := by
      cases heq
      exact ⟨quiet_recorded howes₁, hafter₁.running, hafter₁.owned⟩
    refine ⟨hplace, ending_of_past (fun hknown => ?_) fun w hw => ?_⟩
    · rw [hsuccesses]
      have hlength := hafter₁.known
      cases hlist : s₁.successes hostname with
      | nil =>
        rw [hlist, List.length_nil] at hlength
        omega
      | cons origin earlier =>
        rw [hlist] at hanswer
        rw [hlist, List.length_cons] at hlength
        exact ⟨origin, [], earlier, hanswer, rfl, hlength⟩
    · have hpast := hafter₁.past w hw
      unfold Past at hpast ⊢
      rw [hclock, hsuccesses]
      exact hpast

/-- The request and its outcome, while the mutex is held. -/
theorem requestOrigin_spec {mutex : ℕ} (hafter : After t hostname known window mutex s)
    (hquiet : Quiet t s) (hbarred : barredUntil s hostname ≤ s.clock)
    (hjoined : 0 < known → Joined client hostname) :
    Wp client t (requestOrigin client hostname) (Requested t hostname known window mutex) s := by
  unfold requestOrigin
  cases hurl : joinUrl (client.base hostname) ".well-known/terraform.json" with
  | error error =>
    refine (wp_done t _ _ _).mpr ⟨⟨hquiet, hafter.running, hafter.owned⟩, ?_⟩
    refine ending_of_past (fun hknown => ?_) hafter.past
    obtain ⟨url, hok⟩ := hjoined hknown
    rw [hurl] at hok
    cases hok
  | ok url =>
    -- nothing of the host changes between the check and the request
    have hkeep : Keep client t fun s => (After t hostname known window mutex s ∧ Quiet t s) ∧
        barredUntil s hostname ≤ s.clock := by
      intro s s' hinv hframe h
      refine ⟨(keep_after.and keep_quiet) s s' hinv hframe h.1, ?_⟩
      unfold barredUntil
      rw [hframe.held hostname ⟨mutex, h.1.1.owned⟩]
      exact Nat.le_trans h.2 hframe.clock
    refine (wp_bind t _ _ _ s).mpr ?_
    refine wp_call ⟨⟨hafter, hquiet⟩, hbarred⟩ hkeep
      (fun _ _ h => ⟨⟨mutex, h.1.1.owned⟩, h.1.2, h.1.1.running, h.2⟩)
      fun s₁ choice answer s₂ _ hs₁ _ hexec _ => ?_
    cases always_some hexec
    obtain ⟨⟨hafter₁, hquiet₁⟩, -⟩ := hs₁
    refine (wp_done t _ _ _).mpr ((wp_bind t _ _ _ _).mpr ?_)
    have hafter₂ : After t hostname known window mutex { s₁ with
        inFlight := (t, hostname) :: s₁.inFlight
        history := .started t hostname s₁.clock :: s₁.history } :=
      ⟨hafter₁.known, hafter₁.past, hafter₁.running, hafter₁.owned⟩
    refine wp_call ⟨hafter₂, hquiet₁.2⟩ (keep_after.and keep_settled)
      (fun _ _ h => ⟨⟨mutex, h.1.owned⟩, h.2⟩) fun s₃ choice answer s₄ _ hs₃ _ hexec _ => ?_
    cases choice with
    | ok => cases hexec
    | answer document =>
      cases hexec
      obtain ⟨hafter₃, hsettled₃⟩ := hs₃
      refine (wp_done t _ _ _).mpr (outcome_spec _ ?_ ?_ ⟨url, hurl⟩)
      · exact ⟨hafter₃.known, hafter₃.past, hafter₃.running, hafter₃.owned⟩
      · refine ⟨⟨mutex, hafter₃.owned⟩, fun e he => ?_, fun e he heq => ?_⟩
        · have hne := (List.mem_filter.mp he).2
          simpa using hne
        · rcases List.mem_cons.mp he with rfl | he
          · rfl
          · exact absurd heq (hsettled₃ e he)

/-- The code under the mutex. -/
theorem locked_spec {mutex : ℕ} (hbefore : Before t hostname known window (some mutex) s)
    (hjoined : 0 < known → Joined client hostname) :
    Wp client t (do
      match ← checkCache hostname with
      | some result => return result
      | none => requestOrigin client hostname) (Requested t hostname known window mutex) s := by
  refine (wp_bind t _ _ _ s).mpr (wp_mono (checkCache_spec (some mutex) hbefore) ?_)
  intro answer s₁ hs₁
  obtain ⟨hbefore₁, hchecked₁⟩ := hs₁
  have howned₁ := hbefore₁.owned mutex rfl
  cases answer with
  | some result =>
    exact (wp_done t _ _ _).mpr
      ⟨⟨hbefore₁.under.quiet, hbefore₁.under.running, howned₁⟩, hchecked₁⟩
  | none =>
    obtain ⟨hpast, hbarred⟩ := hchecked₁
    exact requestOrigin_spec ⟨hbefore₁.under.known, hpast, hbefore₁.under.running, howned₁⟩
      hbefore₁.under.quiet (hbarred rfl) hjoined

/-- `RegistryClient::discover`. -/
theorem discover_spec (hunder : Under t hostname known window s) (hunsent : Unsent t s)
    (hjoined : 0 < known → Joined client hostname) :
    Wp client t (discover client hostname) (fun result s' =>
      Running t s' ∧ Ending t hostname known window result s') s := by
  unfold discover
  refine (wp_bind t _ _ _ s).mpr (wp_mono (checkCache_spec none
    ⟨hunder, hunsent, fun _ h => by cases h⟩) ?_)
  intro answer s₁ hs₁
  obtain ⟨hbefore₁, hchecked₁⟩ := hs₁
  cases answer with
  | some result => exact (wp_done t _ _ _).mpr ⟨hbefore₁.under.running, hchecked₁⟩
  | none =>
    dsimp only
    -- the mutex of the host
    refine (wp_bind t _ _ _ s₁).mpr ?_
    refine wp_call hbefore₁ (keep_before none) (fun _ _ _ => trivial)
      fun s₂ choice mutex s₃ _ hs₂ _ hexec hinv₃ => ?_
    have hlock : s₂.lockFor hostname = (mutex, s₃) := always_some hexec
    have hlookup₃ : s₃.locks.lookup hostname = some mutex := by
      have hlookup := lockFor_lookup s₂ hostname
      rw [hlock] at hlookup
      exact hlookup
    have hframe₃ : Frame t s₂ s₃ := by
      have hframe := frame_lockFor t s₂ hostname
      rw [hlock] at hframe
      exact hframe
    have hkeep₂ : Keep client t (Before t hostname known window none) := keep_before none
    have hbefore₃ := hkeep₂ s₂ s₃ hinv₃ hframe₃ hs₂
    have hkeep₃ : Keep client t fun s => Before t hostname known window none s ∧
        s.locks.lookup hostname = some mutex := by
      refine (keep_before none).and fun s s' _ hframe h => ?_
      exact hframe.locks hostname mutex h
    refine (wp_done t _ _ _).mpr ((wp_bind t _ _ _ s₃).mpr ?_)
    refine wp_call ⟨hbefore₃, hlookup₃⟩ hkeep₃ (fun _ _ h => h.1.under.quiet)
      fun s₄ choice answer s₅ _ hs₄ _ hexec _ => ?_
    change exec client t s₄ (.acquire mutex) choice = some (answer, s₅) at hexec
    simp only [exec] at hexec
    split at hexec
    · cases hexec
    · cases always_some hexec
      obtain ⟨⟨hunder₄, hunsent₄, -⟩, hlookup₄⟩ := hs₄
      have hbefore₅ : Before t hostname known window (some mutex)
          { s₄ with owner := Function.update s₄.owner mutex (some t) } := by
        refine ⟨⟨hunder₄.known, hunder₄.barred, hunder₄.quiet, hunder₄.running⟩, hunsent₄, ?_⟩
        intro mutex' hmutex'
        cases hmutex'
        exact ⟨hlookup₄, Function.update_self ..⟩
      refine (wp_done t _ _ _).mpr ((wp_bind t _ _ _ _).mpr ?_)
      refine wp_mono (locked_spec hbefore₅ hjoined) fun result s₆ hs₆ => ?_
      refine (wp_bind t _ _ _ _).mpr ?_
      refine wp_call hs₆ (keep_requested mutex result) (fun _ _ h => ⟨h.1.2.2.2, h.1.1⟩)
        fun s₇ choice answer s₈ _ hs₇ _ hexec _ => ?_
      cases always_some hexec
      exact ⟨hs₇.1.2.1, hs₇.2.recent, hs₇.2.refused⟩

/-- What a finished call leaves on record. -/
def Recorded (t : ℕ) (out : Out U) (s : Shared U) : Prop :=
  match out with
  | .answered hostname result =>
    ∃ call ∈ s.calls, call.task = t ∧ call.hostname = hostname ∧ call.result = result
  | .dropped => True

theorem keep_recorded (t' : ℕ) (out : Out U) : Keep client t (Recorded t' out) := by
  intro s s' _ hframe h
  cases out with
  | dropped => trivial
  | answered hostname result =>
    obtain ⟨call, hcall, hrest⟩ := h
    exact ⟨call, hframe.kept call hcall, hrest⟩

/-- A whole call. -/
theorem call_spec (hquiet : Quiet t s) (hrunning : Running t s) (hunsent : Unsent t s) :
    Wp client t (call client hostname) (Recorded t) s := by
  have hkeep : Keep client t fun s => Quiet t s ∧ Running t s ∧ Unsent t s :=
    keep_quiet.and (keep_running.and keep_unsent)
  unfold call
  refine (wp_bind t _ _ _ s).mpr ?_
  refine wp_call ⟨hquiet, hrunning, hunsent⟩ hkeep (fun _ _ _ => trivial)
    fun s₁ choice answer s₂ hinv hs₁ _ hexec _ => ?_
  cases always_some hexec
  obtain ⟨hquiet₁, hrunning₁, hunsent₁⟩ := hs₁
  refine (wp_done t _ _ _).mpr ((wp_bind t _ _ _ s₁).mpr ?_)
  have hunder : Under t hostname (s₁.successes hostname).length
      ((s₁.cache.lookup hostname).bind DiscoveryEntry.retryAt) s₁ := by
    refine ⟨Nat.le_refl _, fun w hw => ?_, hquiet₁, hrunning₁⟩
    obtain ⟨entry, hlookup, hretry⟩ := Option.bind_eq_some_iff.mp hw
    exact .inl ⟨entry, w, hlookup, hretry, Nat.le_refl _⟩
  have hjoined : 0 < (s₁.successes hostname).length → Joined client hostname := by
    intro hknown
    exact hinv.joined hostname (List.ne_nil_of_length_pos hknown)
  refine wp_mono (discover_spec hunder hunsent₁ hjoined) fun result s₃ hs₃ => ?_
  refine (wp_bind t _ _ _ s₃).mpr ?_
  refine wp_call hs₃.2 (keep_ending result) (fun _ _ h => h) fun s₄ choice answer s₅ _ _ _ hexec _ => ?_
  cases always_some hexec
  exact ⟨_, List.mem_cons_self, rfl, rfl, rfl⟩

end Rules

section Runs

variable {U : Type} [UrlCrate U] [OriginCrate U]

/-- The proofs about single calls add up. -/
theorem machine_sound (client : RegistryClient U) :
    Sound (assertions client) Policy.free (machine client) Recorded where
  exec t s op choice answer s' hinv hpre _ hexec := exec_sound hinv hpre hexec
  start t s hostname program s' hinv _ hstart := by
    have hstart' : (if s.unused t then some (call client hostname, s) else none) =
        some (program, s') := hstart
    split at hstart'
    · next hunused =>
        cases hstart'
        simp only [Shared.unused, Bool.and_eq_true, List.all_eq_true, decide_eq_true_eq] at hunused
        obtain ⟨⟨⟨hhistory, hcalls⟩, hinFlight⟩, hunrecorded⟩ := hunused
        exact ⟨hinv, fun t' _ => frame_refl t' s,
          call_spec ⟨hinFlight, hunrecorded⟩ hcalls hhistory⟩
    · cases hstart'
  cancel t s op s' hinv hpre _ hcancel := by
    cases op with
    | acquire mutex =>
      cases hcancel
      exact ⟨inv_dropped hinv hpre.2, fun t' ht' => frame_dropped ht', trivial⟩
    | awaitDiscovery hostname =>
      cases hcancel
      exact ⟨inv_dropped hinv hpre.2, fun t' ht' => frame_dropped ht', trivial⟩
    | _ => cases hcancel
  move s m s' hinv _ hmove := by
    cases m with
    | tick duration =>
      cases hmove
      have hclock : s.clock ≤ s.clock + duration := Nat.le_add_right _ _
      exact ⟨hinv.mono hclock rfl rfl rfl rfl rfl (List.Sublist.refl _) hinv.locksInjective
        hinv.locksOld (fun _ _ h => h) fun _ _ h => h,
        fun t => { frame_refl t s with clock := hclock }⟩
  reboot s s' _ _ hreboot := by cases hreboot
  post t value := keep_recorded t value

/-- A new client knows nothing. -/
theorem boot_inv (client : RegistryClient U) (clock : ℕ) : Inv client (boot U clock) := by
  refine ⟨?_, ?_, nofun, List.nodup_nil, nofun, List.Pairwise.nil, nofun, ?_, ?_, nofun⟩
  · intro hostname hostname' mutex h _
    cases h
  · intro hostname mutex h
    cases h
  · intro hostname
    exact ⟨rfl, fun _ h => (by cases h), fun _ _ h => (by cases h)⟩
  · intro hostname h
    exact absurd rfl h

/-- In every run: the requests in flight go to different hosts; a request begins
at least 30 seconds after one to its host failed and 30 minutes after one
succeeded; a call that begins after a success answers with the origin of what is
the most recent success at some moment of the call; and a call all of whose time
is in the retry window, before any success, fails without a request. -/
theorem discovery_throttled (client : RegistryClient U) (clock : ℕ)
    (c : Config (Op U) (Res U) (Out U) (Shared U))
    (hrun : (machine client).Run .free ⟨boot U clock, fun _ => none⟩ c) :
    (c.shared.inFlight.map Prod.snd).Nodup ∧
    (c.shared.history.Pairwise fun later earlier =>
      ∀ hostname instant success, earlier = .completed hostname instant success →
        ∀ task next, later = .started task hostname next →
          instant + (if success then originLifetime else retryDelay) ≤ next) ∧
    (∀ call ∈ c.shared.calls,
      (0 < call.known → ∃ origin later earlier, call.result = .ok origin ∧
        c.shared.successes call.hostname = later ++ origin :: earlier ∧
        call.known ≤ earlier.length + 1 ∧ earlier.length + 1 ≤ call.total) ∧
      ∀ w, call.window = some w → call.finished < w → call.total = 0 →
        call.result = .error .discoveryBackoff ∧
          ∀ event ∈ c.shared.history, event.task ≠ some call.task) ∧
    ∀ t hostname result, c.tasks t = some (.done (.answered hostname result)) →
      ∃ call ∈ c.shared.calls,
        call.task = t ∧ call.hostname = hostname ∧ call.result = result := by
  have hverified := adequacy (machine_sound client) (verified_idle (boot_inv client clock)) hrun
  have hinv : Inv client c.shared := hverified.1
  refine ⟨hinv.single, hinv.apart, fun call hcall => ?_, fun t hostname result ht => ?_⟩
  · have hfinished := hinv.finished call hcall
    exact ⟨hfinished.recent, hfinished.refused⟩
  · exact hverified.result ht

end Runs

section Plain

/-- Plain URLs with relative locations. -/
@[reducible] def plainUrls : UrlCrate PlainUrl :=
  { (inferInstance : UrlCrate PlainUrl) with
    join := fun base location =>
      match PlainUrl.parse location with
      | some next => some next
      | none =>
        if location.toList.head? = some '/' then some { base with path := location }
        else
          let directory := (base.path.toList.reverse.dropWhile (· ≠ '/')).reverse
          some { base with path := String.ofList directory ++ location } }

@[reducible] def plainOrigins : @OriginCrate PlainUrl plainUrls :=
  @OriginCrate.mk PlainUrl plainUrls PlainUrl.path (fun url path => { url with path := path })
    fun _ _ => "relative URL without a base"

def plainClient : RegistryClient PlainUrl where
  base hostname := ⟨"https", hostname, "/"⟩
  allowsHttpForTests := false

/-- The client that discovers plain URLs. -/
abbrev plainMachine : Machine (Op PlainUrl) (Res PlainUrl) (Out PlainUrl) (Shared PlainUrl)
    (Choice PlainUrl) String Move :=
  @machine PlainUrl plainUrls plainOrigins plainClient

abbrev plainStart : Config (Op PlainUrl) (Res PlainUrl) (Out PlainUrl) (Shared PlainUrl) :=
  ⟨boot PlainUrl 0, fun _ => none⟩

/-- The discovery document of the host. -/
def plainDocument (service : String) : Document PlainUrl :=
  .ok (⟨"https", "registry.example", "/.well-known/terraform.json"⟩, some service)

abbrev Actions : Type := List (Action (Choice PlainUrl) String Move)

/-- A call that performs this many operations until its answer arrives. -/
def asking (t steps : ℕ) (document : Document PlainUrl) : Actions :=
  .start t "registry.example" :: List.replicate steps (.run t .ok) ++
    [.run t (.answer document), .run t .ok, .run t .ok, .run t .ok]

/-- A call in the retry window. -/
def refused (t : ℕ) : Actions :=
  .start t "registry.example" :: List.replicate 5 (.run t .ok)

/-- The host fails, is refused, is discovered once the retry window has passed, and
fails again when its origin has expired. -/
def plainActions : Actions :=
  asking 0 6 (.error (.responseTooLarge 65536)) ++ refused 1 ++
    [.move (.tick retryDelay)] ++ asking 2 10 (plainDocument "/v1/providers/") ++
    [.move (.tick originLifetime)] ++ asking 3 8 (.error (.responseTooLarge 65536))

def plainOrigin : PlainUrl := ⟨"https", "registry.example", "/v1/providers/"⟩

/-- The last call still answers with the origin, and the refused one sent nothing. -/
theorem discovery_throttled_plain :
    ∃ c, plainMachine.runs plainStart plainActions = some c ∧
      c.shared.calls.map Call.result = [.ok plainOrigin, .ok plainOrigin,
        .error .discoveryBackoff, .error (.responseTooLarge 65536)] ∧
      (c.shared.inFlight.map Prod.snd).Nodup ∧
      ∀ call ∈ c.shared.calls, 0 < call.known → ∃ origin later earlier, call.result = .ok origin ∧
        c.shared.successes call.hostname = later ++ origin :: earlier ∧
        call.known ≤ earlier.length + 1 ∧ earlier.length + 1 ≤ call.total := by
  have hend : (plainMachine.runs plainStart plainActions).any (fun c =>
      c.shared.calls.map Call.result = [.ok plainOrigin, .ok plainOrigin,
        .error .discoveryBackoff, .error (.responseTooLarge 65536)]) = true := by
    decide +kernel
  obtain ⟨c, hc, htest⟩ := exists_of_runs plainMachine hend
  obtain ⟨hsingle, -, hcalls, -⟩ := @discovery_throttled PlainUrl plainUrls plainOrigins
    plainClient 0 c (run_of_runs plainMachine hc)
  exact ⟨c, hc, of_decide_eq_true htest, hsingle, fun call hcall => (hcalls call hcall).1⟩

end Plain

end OpenTfMirror.DiscoveryProofs
