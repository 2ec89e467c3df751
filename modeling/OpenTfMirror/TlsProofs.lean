import OpenTfMirror.TlsReload

/-!
# What a handshake may be answered with

Every pair in the cache was validated at some moment, and a chain stays valid
from then until the earliest end of its certificates. With the clock of the call
this gives a moment of the call at which all of the chain is valid. When no
reload is overtaken by a later claim, the claims are spaced and the cache only
moves forward.
-/

namespace OpenTfMirror.TlsProofs

open TaskProgram TaskLogic Fallible FileStore CertificateValidity TlsReload

section Invariant

/-- A loaded pair, with a moment not later than now from which on its chain is
valid until its end. -/
structure Sound (s : Shared) (pair : LoadedCertifiedKey) : Prop where
  loaded : pair ∈ s.loads
  validated : ∃ moment, moment ≤ s.time ∧ unixTimestamp moment ≤ pair.notAfter ∧
    ∀ t, unixTimestamp moment ≤ t → t ≤ pair.notAfter → ValidAt pair.key.certs t

/-- An answer for a call that began then: it stems from one load, and its chain
was valid at a moment since. -/
def Answered (started : ℤ) (result : Option CertifiedKey) (s : Shared) : Prop :=
  ∀ key, result = some key → (∃ loaded ∈ s.loads, loaded.key = key) ∧
    ∃ moment, started ≤ moment ∧ moment ≤ s.time ∧ ValidAt key.certs (unixTimestamp moment)

/-- The call stored nothing. -/
def Unstored (t : ℕ) (s : Shared) : Prop := ∀ store ∈ s.stores, store.task ≠ some t

/-- The call has not ended. -/
def Running (t : ℕ) (s : Shared) : Prop := ∀ call ∈ s.calls, call.task ≠ t

/-- Claims are spaced, and no store goes back behind an earlier claim. -/
structure Spaced (interval : ℕ) (s : Shared) : Prop where
  claims : s.claims.Pairwise fun later earlier => earlier + interval ≤ later
  claims_le : ∀ claimed ∈ s.claims, claimed ≤ s.since
  stores : s.stores.Pairwise fun later earlier => earlier.claimed ≤ later.claimed
  stores_le : ∀ store ∈ s.stores, store.claimed ≤ s.since

/-- What holds between operations. The last part needs that no store comes after
a later claim. -/
structure Inv (interval : ℕ) (ordered : Prop) (s : Shared) : Prop where
  cached : Sound s s.cached
  latest : s.stores.head?.map Store.pair = some s.cached
  answered : ∀ call ∈ s.calls, ∀ key, call.result = some key →
    (∃ loaded ∈ s.loads, loaded.key = key) ∧ ∃ moment, call.started ≤ moment ∧
      moment ≤ call.finished ∧ ValidAt key.certs (unixTimestamp moment)
  failed : ∀ call ∈ s.calls, call.outcome = .failed → Unstored call.task s
  spaced : ordered → Spaced interval s

/-- What the other calls leave alone. -/
structure Frame (t : ℕ) (s s' : Shared) : Prop where
  time : s.time ≤ s'.time
  loads : ∀ loaded ∈ s.loads, loaded ∈ s'.loads
  calls : ∀ call ∈ s'.calls, call.task = t → call ∈ s.calls
  stores : ∀ store ∈ s'.stores, store.task = some t → store ∈ s.stores
  kept : ∀ call ∈ s.calls, call ∈ s'.calls

/-- What an operation needs. -/
def Pre (interval t : ℕ) : Op → Shared → Prop
  | .claim i _, _ => i = interval
  | .store pair _, s => Sound s pair ∧ Running t s
  | .leave started outcome result, s =>
    Answered started result s ∧ (outcome = .failed → Unstored t s)
  | _, _ => True

/-- A store is not overtaken: no later reload was claimed since. -/
def policy (ordered : Prop) : Policy Op Shared Choice Unit Move where
  start _ _ _ := True
  run _ s op _ := ordered → ∀ pair now, op = .store pair now → s.since = now
  cancel _ _ _ := True
  move _ _ := True
  reboot := True

theorem frame_refl (t : ℕ) (s : Shared) : Frame t s s where
  time := Int.le_refl _
  loads _ h := h
  calls _ h _ := h
  stores _ h _ := h
  kept _ h := h

theorem frame_trans (t : ℕ) (s₁ s₂ s₃ : Shared) (h : Frame t s₁ s₂) (h' : Frame t s₂ s₃) :
    Frame t s₁ s₃ where
  time := Int.le_trans h.time h'.time
  loads _ hl := h'.loads _ (h.loads _ hl)
  calls call hc ht := h.calls call (h'.calls call hc ht) ht
  stores store hs ht := h.stores store (h'.stores store hs ht) ht
  kept _ hc := h'.kept _ (h.kept _ hc)

/-- The assertions of the proofs. -/
def assertions (interval : ℕ) (ordered : Prop) : Assertions Op Shared where
  inv := Inv interval ordered
  frame := Frame
  pre := Pre interval
  frame_refl := frame_refl
  frame_trans := frame_trans

end Invariant

section Steps

variable {interval : ℕ} {ordered : Prop} {t : ℕ} {s s' : Shared}

theorem Sound.mono {pair : LoadedCertifiedKey} (h : Sound s pair) (htime : s.time ≤ s'.time)
    (hloads : ∀ loaded ∈ s.loads, loaded ∈ s'.loads) : Sound s' pair := by
  obtain ⟨moment, hmoment, hvalid⟩ := h.validated
  exact ⟨hloads _ h.loaded, moment, Int.le_trans hmoment htime, hvalid⟩

/-- A step that moves the clocks or notes a load. -/
theorem Inv.mono (h : Inv interval ordered s) (htime : s.time ≤ s'.time)
    (hloads : ∀ loaded ∈ s.loads, loaded ∈ s'.loads) (hcached : s'.cached = s.cached)
    (hsince : s'.since = s.since) (hclaims : s'.claims = s.claims)
    (hstores : s'.stores = s.stores) (hcalls : s'.calls = s.calls) : Inv interval ordered s' where
  cached := by
    rw [hcached]
    exact h.cached.mono htime hloads
  latest := by
    rw [hstores, hcached]
    exact h.latest
  answered call hcall key hkey := by
    rw [hcalls] at hcall
    obtain ⟨⟨loaded, hloaded, heq⟩, hmoment⟩ := h.answered call hcall key hkey
    exact ⟨⟨loaded, hloads _ hloaded, heq⟩, hmoment⟩
  failed call hcall houtcome := by
    rw [hcalls] at hcall
    have hunstored := h.failed call hcall houtcome
    unfold Unstored at hunstored ⊢
    rw [hstores]
    exact hunstored
  spaced ho := by
    obtain ⟨hpairs, hle, hpairs', hle'⟩ := h.spaced ho
    constructor
    · rw [hclaims]
      exact hpairs
    · rw [hclaims, hsince]
      exact hle
    · rw [hstores]
      exact hpairs'
    · rw [hstores, hsince]
      exact hle'

/-- Such a step leaves every frame alone. -/
theorem frame_mono (t : ℕ) (htime : s.time ≤ s'.time)
    (hloads : ∀ loaded ∈ s.loads, loaded ∈ s'.loads) (hstores : s'.stores = s.stores)
    (hcalls : s'.calls = s.calls) : Frame t s s' where
  time := htime
  loads := hloads
  calls _ h _ := hcalls ▸ h
  stores _ h _ := hstores ▸ h
  kept _ h := hcalls.symm ▸ h

/-- The claim of a reload. -/
theorem inv_claim (hpositive : ordered → 0 < interval) (h : Inv interval ordered s) {now : ℕ}
    (hnow : ¬now - s.since < interval) :
    Inv interval ordered { s with since := now, claims := now :: s.claims } where
  cached := ⟨h.cached.loaded, h.cached.validated⟩
  latest := h.latest
  answered := h.answered
  failed := h.failed
  spaced ho := by
    obtain ⟨hpairs, hle, hpairs', hle'⟩ := h.spaced ho
    have hlater : s.since + interval ≤ now := by
      have hpos := hpositive ho
      omega
    refine ⟨List.pairwise_cons.mpr ⟨fun earlier hearlier => ?_, hpairs⟩, ?_, hpairs', ?_⟩
    · have hbound := hle earlier hearlier
      omega
    · intro claimed hclaimed
      dsimp only at hclaimed ⊢
      rcases List.mem_cons.mp hclaimed with rfl | hclaimed
      · exact Nat.le_refl _
      · have hbound := hle claimed hclaimed
        omega
    · intro store hstore
      have hbound := hle' store hstore
      dsimp only
      omega

/-- The store of a loaded pair. -/
theorem inv_store (h : Inv interval ordered s) {pair : CachedCertifiedKey} {now : ℕ}
    (hpair : Sound s pair) (hrunning : Running t s) (hnow : ordered → s.since = now) :
    Inv interval ordered
      { s with cached := pair, since := now, stores := ⟨some t, now, pair⟩ :: s.stores } where
  cached := ⟨hpair.loaded, hpair.validated⟩
  latest := rfl
  answered := h.answered
  failed call hcall houtcome := by
    intro store hstore
    rcases List.mem_cons.mp hstore with rfl | hstore
    · intro heq
      exact hrunning call hcall (Option.some.inj heq).symm
    · exact h.failed call hcall houtcome store hstore
  spaced ho := by
    obtain ⟨hpairs, hle, hpairs', hle'⟩ := h.spaced ho
    have hsince := hnow ho
    subst hsince
    refine ⟨hpairs, hle, List.pairwise_cons.mpr ⟨hle', hpairs'⟩, ?_⟩
    intro store hstore
    rcases List.mem_cons.mp hstore with rfl | hstore
    · exact Nat.le_refl _
    · exact hle' store hstore

/-- The end of a call. -/
theorem inv_leave (h : Inv interval ordered s) {started : ℤ} {outcome : Outcome}
    {result : Option CertifiedKey} (hanswered : Answered started result s)
    (hunstored : outcome = .failed → Unstored t s) :
    Inv interval ordered
      { s with calls := ⟨t, started, s.time, outcome, result⟩ :: s.calls } where
  cached := ⟨h.cached.loaded, h.cached.validated⟩
  latest := h.latest
  answered call hcall := by
    rcases List.mem_cons.mp hcall with rfl | hcall
    · exact hanswered
    · exact h.answered call hcall
  failed call hcall := by
    rcases List.mem_cons.mp hcall with rfl | hcall
    · exact hunstored
    · exact h.failed call hcall
  spaced ho := by
    obtain ⟨hpairs, hle, hpairs', hle'⟩ := h.spaced ho
    exact ⟨hpairs, hle, hpairs', hle'⟩

theorem always_some {α : Type} {result answer : α × Shared} {choice : Choice}
    (h : always result choice = some answer) : result = answer := by
  cases choice with
  | ok => exact Option.some.inj h
  | certs content => cases h
  | key content => cases h

/-- Every operation keeps the invariant and the frames of the other calls. -/
theorem exec_sound (hpositive : ordered → 0 < interval) {op : Op} {choice : Choice} {answer : Res op}
    (hinv : Inv interval ordered s) (hpre : Pre interval t op s)
    (hp : (policy ordered).run t s op choice) (hexec : exec t s op choice = some (answer, s')) :
    Inv interval ordered s' ∧ ∀ t', t' ≠ t → Frame t' s s' := by
  have hsame : Inv interval ordered s ∧ ∀ t', t' ≠ t → Frame t' s s :=
    ⟨hinv, fun t' _ => frame_refl t' s⟩
  cases op with
  | instantNow | systemNow | readCached | enter =>
    cases always_some hexec
    exact hsame
  | readCerts =>
    cases choice with
    | certs content =>
      cases hexec
      exact hsame
    | ok => cases hexec
    | key content => cases hexec
  | readKey =>
    cases choice with
    | key content =>
      cases hexec
      exact hsame
    | ok => cases hexec
    | certs content => cases hexec
  | claim i now =>
    have hi : i = interval := hpre
    subst hi
    have hclaim : s.claim i now = (answer, s') := always_some hexec
    unfold Shared.claim at hclaim
    split at hclaim
    · cases hclaim
      exact hsame
    · next hnow =>
        cases hclaim
        exact ⟨inv_claim hpositive hinv hnow, fun t' _ =>
          frame_mono t' (Int.le_refl _) (fun _ h => h) rfl rfl⟩
  | store pair now =>
    cases always_some hexec
    refine ⟨inv_store hinv hpre.1 hpre.2 fun ho => hp ho pair now rfl, fun t' ht' => ?_⟩
    refine ⟨Int.le_refl _, fun _ h => h, fun _ h _ => h, fun store hstore htask => ?_, fun _ h => h⟩
    rcases List.mem_cons.mp hstore with rfl | hstore
    · exact absurd (Option.some.inj htask).symm ht'
    · exact hstore
  | noteLoad loaded =>
    cases always_some hexec
    have hloads : ∀ l ∈ s.loads, l ∈ loaded :: s.loads := fun l hl => List.mem_cons_of_mem _ hl
    exact ⟨hinv.mono (Int.le_refl _) hloads rfl rfl rfl rfl rfl, fun t' _ =>
      frame_mono t' (Int.le_refl _) hloads rfl rfl⟩
  | leave started outcome result =>
    cases always_some hexec
    refine ⟨inv_leave hinv hpre.1 hpre.2, fun t' ht' => ?_⟩
    refine ⟨Int.le_refl _, fun _ h => h, fun call hcall htask => ?_, fun _ h _ => h,
      fun _ h => List.mem_cons_of_mem _ h⟩
    rcases List.mem_cons.mp hcall with rfl | hcall
    · exact absurd htask.symm ht'
    · exact hcall

end Steps

section Clocks

theorem unixTimestamp_le (time : ℤ) : unixTimestamp time ≤ i64Max := by
  unfold unixTimestamp i64Max
  split <;> omega

/-- Later times have no smaller timestamps. -/
theorem unixTimestamp_mono {a b : ℤ} (h : a ≤ b) : unixTimestamp a ≤ unixTimestamp b := by
  unfold unixTimestamp i64Max
  split <;> split <;> omega

/-- A pair that has not expired at a moment of the call was valid at one: at that
moment, or when it was validated since. -/
theorem Sound.answered {s : Shared} {pair : LoadedCertifiedKey} (h : Sound s pair)
    {started time : ℤ} (hstarted : started ≤ time) (htime : time ≤ s.time) :
    Answered started (unexpired pair (unixTimestamp time)) s := by
  intro key hkey
  unfold unexpired at hkey
  split at hkey
  · next hend =>
      cases hkey
      refine ⟨⟨pair, h.loaded, rfl⟩, ?_⟩
      obtain ⟨moment, hmoment, hlive, hvalid⟩ := h.validated
      by_cases hearlier : moment ≤ time
      · exact ⟨time, hstarted, htime, hvalid _ (unixTimestamp_mono hearlier) hend⟩
      · exact ⟨moment, by omega, hmoment, hvalid _ (Int.le_refl _) hlive⟩
  · cases hkey

end Clocks

section Rules

variable {interval : ℕ} {ordered : Prop} {t : ℕ} {s : Shared}

/-- The rules of the task logic at this machine. -/
abbrev Wp [RustlsCrate] (interval : ℕ) (ordered : Prop) (t : ℕ) {α : Type} (program : Code α)
    (Q : α → Shared → Prop) (s : Shared) : Prop :=
  wp (assertions interval ordered) (policy ordered) (machine interval) t program Q s

/-- What the other calls cannot invalidate. -/
abbrev Keep (interval : ℕ) (ordered : Prop) (t : ℕ) (φ : Shared → Prop) : Prop :=
  Stable (assertions interval ordered) t φ

/-- The call under way since then has stored nothing yet. -/
structure Under (t : ℕ) (started : ℤ) (s : Shared) : Prop where
  started : started ≤ s.time
  running : Running t s
  unstored : Unstored t s

theorem keep_running : Keep interval ordered t (Running t) := by
  intro s s' _ hframe h call hcall heq
  exact h call (hframe.calls call hcall heq) heq

theorem keep_unstored : Keep interval ordered t (Unstored t) := by
  intro s s' _ hframe h store hstore heq
  exact h store (hframe.stores store hstore heq) heq

theorem keep_under (started : ℤ) : Keep interval ordered t (Under t started) := by
  intro s s' hinv hframe h
  exact ⟨Int.le_trans h.started hframe.time, keep_running s s' hinv hframe h.running,
    keep_unstored s s' hinv hframe h.unstored⟩

theorem keep_sound (pair : LoadedCertifiedKey) : Keep interval ordered t fun s => Sound s pair := by
  intro s s' _ hframe h
  exact h.mono hframe.time hframe.loads

theorem Answered.mono {started : ℤ} {result : Option CertifiedKey} {s s' : Shared}
    (h : Answered started result s) (htime : s.time ≤ s'.time)
    (hloads : ∀ loaded ∈ s.loads, loaded ∈ s'.loads) : Answered started result s' := by
  intro key hkey
  obtain ⟨⟨loaded, hloaded, heq⟩, moment, hfrom, hto, hvalid⟩ := h key hkey
  exact ⟨⟨loaded, hloads _ hloaded, heq⟩, moment, hfrom, Int.le_trans hto htime, hvalid⟩

theorem keep_answered (started : ℤ) (result : Option CertifiedKey) :
    Keep interval ordered t (Answered started result) := by
  intro s s' _ hframe h
  exact h.mono hframe.time hframe.loads

theorem keep_time (time : ℤ) : Keep interval ordered t fun s => time ≤ s.time := by
  intro s s' _ hframe h
  exact Int.le_trans h hframe.time

variable [RustlsCrate]

/-- An operation that only looks. -/
theorem wp_look {op : Op} {Q : Res op → Shared → Prop} {φ : Shared → Prop}
    (hφ : Keep interval ordered t φ) (hs : φ s) (hpre : ∀ s, Pre interval t op s)
    (hlook : ∀ s₁ choice answer s₂, exec t s₁ op choice = some (answer, s₂) → s₂ = s₁)
    (hnext : ∀ s₁ choice answer, Inv interval ordered s₁ → φ s₁ →
      exec t s₁ op choice = some (answer, s₁) → Q answer s₁) :
    Wp interval ordered t (.call op .done) Q s := by
  refine wp_call hs hφ (fun s₁ _ _ => hpre s₁) fun s₁ choice answer s₂ hinv hs₁ _ hexec _ => ?_
  have hsame := hlook s₁ choice answer s₂ hexec
  subst hsame
  exact hnext s₂ choice answer hinv hs₁ hexec

/-- A look at the wall clock. -/
theorem wp_systemNow {φ : Shared → Prop} (hφ : Keep interval ordered t φ) (hs : φ s)
    {Q : ℤ → Shared → Prop} (hnext : ∀ s₁, φ s₁ → Q s₁.time s₁) :
    Wp interval ordered t systemNow Q s := by
  refine wp_look hφ hs (fun _ => trivial) (fun s₁ choice answer s₂ hexec => ?_)
    fun s₁ choice answer _ hs₁ hexec => ?_
  · cases always_some hexec
    rfl
  · cases always_some hexec
    exact hnext s₁ hs₁

/-- A look at the cache. -/
theorem wp_readCached {φ : Shared → Prop} (hφ : Keep interval ordered t φ) (hs : φ s)
    {Q : CachedCertifiedKey × ℕ → Shared → Prop}
    (hnext : ∀ s₁ since, φ s₁ → Sound s₁ s₁.cached → Q (s₁.cached, since) s₁) :
    Wp interval ordered t readCached Q s := by
  refine wp_look hφ hs (fun _ => trivial) (fun s₁ choice answer s₂ hexec => ?_)
    fun s₁ choice answer hinv hs₁ hexec => ?_
  · cases always_some hexec
    rfl
  · cases always_some hexec
    exact hnext s₁ s₁.since hs₁ hinv.cached

/-- A file has any content. -/
theorem wp_readCerts {φ : Shared → Prop} (hφ : Keep interval ordered t φ) (hs : φ s)
    {Q : Except Report (List Bytes) → Shared → Prop} (hnext : ∀ s₁ content, φ s₁ → Q content s₁) :
    Wp interval ordered t readCerts Q s := by
  refine wp_look hφ hs (fun _ => trivial) (fun s₁ choice answer s₂ hexec => ?_)
    fun s₁ choice answer _ hs₁ _ => hnext s₁ answer hs₁
  cases choice with
  | certs content =>
    cases hexec
    rfl
  | ok => cases hexec
  | key content => cases hexec

theorem wp_readKey {φ : Shared → Prop} (hφ : Keep interval ordered t φ) (hs : φ s)
    {Q : Except Report Bytes → Shared → Prop} (hnext : ∀ s₁ content, φ s₁ → Q content s₁) :
    Wp interval ordered t readKey Q s := by
  refine wp_look hφ hs (fun _ => trivial) (fun s₁ choice answer s₂ hexec => ?_)
    fun s₁ choice answer _ hs₁ _ => hnext s₁ answer hs₁
  cases choice with
  | key content =>
    cases hexec
    rfl
  | ok => cases hexec
  | certs content => cases hexec

omit [RustlsCrate] in
/-- A validated chain is valid from the reading of the clock on. -/
theorem checkChain_ok {certs : List Bytes} {time notAfter : ℤ}
    (h : checkChain certs (unixTimestamp time) = .ok notAfter) :
    unixTimestamp time ≤ notAfter ∧
      ∀ t, unixTimestamp time ≤ t → t ≤ notAfter → ValidAt certs t := by
  unfold checkChain at h
  split at h
  · cases h
  · exact validateCertificateValidity_ok h (unixTimestamp_le time)

theorem buildCertifiedKey_certs {certs : List Bytes} {key : Bytes} {certified : CertifiedKey}
    (h : buildCertifiedKey certs key = .ok certified) : certified = ⟨certs, key⟩ := by
  unfold buildCertifiedKey at h
  split at h
  · cases h
  · split at h
    · cases h
    · exact (Except.ok.inj h).symm

/-- `load_certified_key` yields a pair that is sound, with a chain that was valid
during the call. -/
theorem loadCertifiedKey_spec {started : ℤ} (hs : Under t started s) :
    Wp interval ordered t loadCertifiedKey.run (fun result s' => Under t started s' ∧
      ∀ loaded, result = .ok loaded →
        Sound s' loaded ∧ Answered started (some loaded.key) s') s := by
  unfold loadCertifiedKey
  refine wp_lift_bind (wp_readCerts (keep_under started) hs fun s₁ content hs₁ => ?_)
  cases content with
  | error report => exact (wp_run_throw t _ _ s₁).mpr ⟨hs₁, nofun⟩
  | ok certs =>
    refine wp_lift_bind (wp_systemNow (keep_under started) hs₁ fun s₂ hs₂ => ?_)
    cases hchain : checkChain certs (unixTimestamp s₂.time) with
    | error report => exact (wp_run_throw t _ _ s₂).mpr ⟨hs₂, nofun⟩
    | ok notAfter =>
      obtain ⟨hlive, hvalid⟩ := checkChain_ok hchain
      have htime : started ≤ s₂.time := hs₂.started
      have hboth : Keep interval ordered t fun s => Under t started s ∧ s₂.time ≤ s.time :=
        (keep_under started).and (keep_time s₂.time)
      refine wp_lift_bind ?_
      refine wp_readKey hboth ⟨hs₂, Int.le_refl _⟩ fun s₃ content hs₃ => ?_
      cases content with
      | error report => exact (wp_run_throw t _ _ s₃).mpr ⟨hs₃.1, nofun⟩
      | ok key =>
        dsimp only
        cases hbuild : buildCertifiedKey certs key with
        | error report => exact (wp_run_throw t _ _ s₃).mpr ⟨hs₃.1, nofun⟩
        | ok certified =>
          have hcerts := buildCertifiedKey_certs hbuild
          refine wp_lift_bind ?_
          refine wp_call hs₃ hboth (fun _ _ _ => trivial)
            fun s₄ choice answer s₅ _ hs₄ _ hexec _ => ?_
          cases always_some hexec
          refine ⟨⟨hs₄.1.started, hs₄.1.running, hs₄.1.unstored⟩, fun loaded heq => ?_⟩
          cases heq
          subst hcerts
          refine ⟨⟨List.mem_cons_self, s₂.time, hs₄.2, hlive, hvalid⟩, fun key' hkey => ?_⟩
          cases hkey
          exact ⟨⟨_, List.mem_cons_self, rfl⟩, s₂.time, htime, hs₄.2,
            hvalid _ (Int.le_refl _) hlive⟩

/-- What a call may end with. -/
def Ending (t : ℕ) (started : ℤ) (answer : Outcome × Option CertifiedKey) (s : Shared) : Prop :=
  Running t s ∧ Answered started answer.2 s ∧ (answer.1 = .failed → Unstored t s)

omit [RustlsCrate] in
/-- A later start asks for more. -/
theorem Ending.earlier {started time : ℤ} {answer : Outcome × Option CertifiedKey}
    (h : Ending t time answer s) (hstarted : started ≤ time) : Ending t started answer s := by
  refine ⟨h.1, fun key hkey => ?_, h.2.2⟩
  obtain ⟨hloaded, moment, hfrom, hto, hvalid⟩ := h.2.1 key hkey
  exact ⟨hloaded, moment, Int.le_trans hstarted hfrom, hto, hvalid⟩

omit [RustlsCrate] in
/-- Answering from the cache, after the clock was read at that time. -/
theorem ending_unexpired {time : ℤ} {pair : CachedCertifiedKey} (hs : Under t time s)
    (hpair : Sound s pair) (outcome : Outcome) :
    Ending t time (outcome, unexpired pair (unixTimestamp time)) s :=
  ⟨hs.running, hpair.answered (Int.le_refl _) hs.started, fun _ => hs.unstored⟩

/-- The claimed reload, after the clock was read at that time. -/
theorem reload_spec {time : ℤ} (now : ℕ) (hs : Under t time s) :
    Wp interval ordered t (do
      match ← loadCertifiedKey.run with
      | .ok loaded =>
        store loaded now
        return (Outcome.reloaded, some loaded.key)
      | .error _ =>
        let (cached, _) ← readCached
        return (Outcome.failed, unexpired cached (unixTimestamp time))) (Ending t time) s := by
  refine (wp_bind t _ _ _ s).mpr (wp_mono (loadCertifiedKey_spec hs) fun result s₁ hs₁ => ?_)
  obtain ⟨hunder, hresult⟩ := hs₁
  cases result with
  | ok loaded =>
    have hkeep : Keep interval ordered t fun s =>
        Under t time s ∧ Sound s loaded ∧ Answered time (some loaded.key) s :=
      (keep_under time).and ((keep_sound loaded).and (keep_answered time _))
    refine (wp_bind t _ _ _ s₁).mpr ?_
    refine wp_call ⟨hunder, hresult loaded rfl⟩ hkeep (fun s₂ _ h => ⟨h.2.1, h.1.running⟩)
      fun s₂ choice answer s₃ _ hs₂ _ hexec _ => ?_
    cases always_some hexec
    exact ⟨hs₂.1.running, hs₂.2.2.mono (Int.le_refl _) fun _ h => h, nofun⟩
  | error report =>
    refine (wp_bind t _ _ _ s₁).mpr (wp_readCached (keep_under time) hunder ?_)
    intro s₂ since hs₂ hcached
    exact ending_unexpired hs₂ hcached .failed

/-- `resolve_current_cert_option`. -/
theorem resolveCurrentCertOption_spec {started : ℤ} (hs : Under t started s) :
    Wp interval ordered t (resolveCurrentCertOption interval) (Ending t started) s := by
  have hunder : Keep interval ordered t (Under t started) := keep_under started
  unfold resolveCurrentCertOption
  -- the two clocks
  refine (wp_bind t _ _ _ s).mpr (wp_look hunder hs (fun _ => trivial) ?_ ?_)
  · intro s₁ choice answer s₂ hexec
    cases always_some hexec
    rfl
  intro s₁ choice now _ hs₁ _
  refine (wp_bind t _ _ _ s₁).mpr (wp_systemNow hunder hs₁ fun s₂ hs₂ => ?_)
  have hfrom : started ≤ s₂.time := hs₂.started
  have hs₂' : Under t s₂.time s₂ := ⟨Int.le_refl _, hs₂.running, hs₂.unstored⟩
  -- the look under the read lock
  refine (wp_bind t _ _ _ s₂).mpr (wp_readCached (keep_under s₂.time) hs₂' ?_)
  intro s₃ since hs₃ hcached
  dsimp only
  split
  · exact (ending_unexpired hs₃ hcached .cached).earlier hfrom
  · refine (wp_bind t _ _ _ s₃).mpr ?_
    -- the look under the write lock, which may claim the reload
    refine wp_call hs₃ (keep_under s₂.time) (fun _ _ _ => rfl) ?_
    intro s₄ choice answer s₅ hinv hs₄ _ hexec _
    have hclaim : s₄.claim interval now = (answer, s₅) := always_some hexec
    unfold Shared.claim at hclaim
    split at hclaim
    · cases hclaim
      exact (ending_unexpired hs₄ hinv.cached .cached).earlier hfrom
    · cases hclaim
      have hs₅ : Under t s₂.time { s₄ with since := now, claims := now :: s₄.claims } :=
        ⟨hs₄.started, hs₄.running, hs₄.unstored⟩
      refine (wp_done t _ _ _).mpr (wp_mono (reload_spec now hs₅) ?_)
      intro answer s₆ hs₆
      exact Ending.earlier hs₆ hfrom

/-- The record of a finished call. -/
def Recorded (t : ℕ) (result : Option CertifiedKey) (s : Shared) : Prop :=
  ∃ call ∈ s.calls, call.task = t ∧ call.result = result

/-- A whole call. -/
theorem resolve_spec (hrunning : Running t s) (hunstored : Unstored t s) :
    Wp interval ordered t (resolve interval) (Recorded t) s := by
  have hboth : Keep interval ordered t fun s => Running t s ∧ Unstored t s :=
    keep_running.and keep_unstored
  unfold resolve
  refine (wp_bind t _ _ _ s).mpr (wp_look hboth ⟨hrunning, hunstored⟩ (fun _ => trivial) ?_ ?_)
  · intro s₁ choice answer s₂ hexec
    cases always_some hexec
    rfl
  intro s₁ choice started _ hs₁ hexec
  cases always_some hexec
  have hunder : Under t s₁.time s₁ := ⟨Int.le_refl _, hs₁.1, hs₁.2⟩
  refine (wp_bind t _ _ _ s₁).mpr (wp_mono (resolveCurrentCertOption_spec hunder) ?_)
  intro answer s₂ hs₂
  have hkeep : Keep interval ordered t (Ending t s₁.time answer) := by
    refine keep_running.and ((keep_answered s₁.time answer.2).and ?_)
    exact Stable.imp keep_unstored
  refine (wp_bind t _ _ _ s₂).mpr ?_
  refine wp_call hs₂ hkeep (fun s₃ _ h => h.2) fun s₃ choice answer s₄ _ _ _ hexec _ => ?_
  cases always_some hexec
  exact ⟨_, List.mem_cons_self, rfl, rfl⟩

end Rules

section Runs

variable [RustlsCrate] {interval : ℕ} {ordered : Prop}

/-- The proofs about single calls add up. -/
theorem machine_sound (hpositive : ordered → 0 < interval) :
    TaskLogic.Sound (assertions interval ordered) (policy ordered) (machine interval) Recorded where
  exec t s op choice answer s' hinv hpre hp hexec := exec_sound hpositive hinv hpre hp hexec
  start t s entry program s' hinv _ hstart := by
    have hstart' : (if s.unused t then some (resolve interval, s) else none) = some (program, s') :=
      hstart
    split at hstart'
    · next hunused =>
        cases hstart'
        simp only [Shared.unused, Bool.and_eq_true, List.all_eq_true, decide_eq_true_eq] at hunused
        exact ⟨hinv, fun t' _ => frame_refl t' s, resolve_spec hunused.1 hunused.2⟩
    · cases hstart'
  cancel t s op s' _ _ _ hcancel := by cases hcancel
  move s m s' hinv _ hmove := by
    cases m with
    | tick duration =>
      cases hmove
      exact ⟨hinv.mono (Int.le_refl _) (fun _ h => h) rfl rfl rfl rfl rfl, fun t =>
        frame_mono t (Int.le_refl _) (fun _ h => h) rfl rfl⟩
    | wall duration =>
      cases hmove
      have htime : s.time ≤ s.time + duration := by omega
      exact ⟨hinv.mono htime (fun _ h => h) rfl rfl rfl rfl rfl, fun t =>
        frame_mono t htime (fun _ h => h) rfl rfl⟩
  reboot s s' _ _ hreboot := by cases hreboot
  post t value s s' _ hframe h := by
    obtain ⟨call, hcall, hrest⟩ := h
    exact ⟨call, hframe.kept call hcall, hrest⟩

/-- A new resolver has loaded a pair. -/
theorem new_inv {certs : Except Report (List Bytes)} {key : Except Report Bytes} {time : ℤ}
    {clock : ℕ} {s : Shared} (h : ReloadingCertResolver.new certs key time clock = .ok s) :
    Inv interval ordered s := by
  unfold ReloadingCertResolver.new at h
  obtain ⟨chain, -, h⟩ := Metadata.bind_ok.mp h
  obtain ⟨notAfter, hchain, h⟩ := Metadata.bind_ok.mp h
  obtain ⟨keyBytes, -, h⟩ := Metadata.bind_ok.mp h
  obtain ⟨certified, hbuild, h⟩ := Metadata.bind_ok.mp h
  have hcerts := buildCertifiedKey_certs hbuild
  obtain ⟨hlive, hvalid⟩ := checkChain_ok hchain
  cases h
  subst hcerts
  refine ⟨⟨List.mem_cons_self, time, Int.le_refl _, hlive, hvalid⟩, rfl, nofun, nofun, fun _ => ?_⟩
  refine ⟨List.Pairwise.nil, nofun, List.pairwise_singleton _ _, fun store hstore => ?_⟩
  rw [List.mem_singleton.mp hstore]

/-- Every state of a run satisfies the invariant, and every finished call is
recorded with its answer. -/
theorem reachable (hpositive : ordered → 0 < interval) {certs : Except Report (List Bytes)}
    {key : Except Report Bytes} {time : ℤ} {clock : ℕ} {s : Shared}
    (hnew : ReloadingCertResolver.new certs key time clock = .ok s)
    {c : Config Op Res (Option CertifiedKey) Shared}
    (hrun : (machine interval).Run (policy ordered) ⟨s, fun _ => none⟩ c) :
    Inv interval ordered c.shared ∧
      ∀ t result, c.tasks t = some (.done result) → Recorded t result c.shared := by
  have hverified := adequacy (machine_sound hpositive) (verified_idle (new_inv hnew)) hrun
  exact ⟨hverified.1, fun t result ht => hverified.result ht⟩

/-- In every run, a call that answers with a key answers with one that a single
load produced, and at a moment of the call all of its chain was valid. A call
whose reload failed stores nothing, and the cached pair is the one stored last. -/
theorem presented_certificates_valid (interval : ℕ) (certs : Except Report (List Bytes))
    (key : Except Report Bytes) (time : ℤ) (clock : ℕ) (s : Shared)
    (hnew : ReloadingCertResolver.new certs key time clock = .ok s)
    (c : Config Op Res (Option CertifiedKey) Shared)
    (hrun : (machine interval).Run .free ⟨s, fun _ => none⟩ c) :
    (∀ call ∈ c.shared.calls, (∀ certified, call.result = some certified →
      (∃ loaded ∈ c.shared.loads, loaded.key = certified) ∧
        ∃ moment, call.started ≤ moment ∧ moment ≤ call.finished ∧
          ValidAt certified.certs (unixTimestamp moment)) ∧
      (call.outcome = .failed → ∀ store ∈ c.shared.stores, store.task ≠ some call.task)) ∧
    c.shared.stores.head?.map Store.pair = some c.shared.cached ∧
    ∀ t result, c.tasks t = some (.done result) →
      ∃ call ∈ c.shared.calls, call.task = t ∧ call.result = result := by
  have hwide : ∀ (c : Config Op Res (Option CertifiedKey) Shared) action,
      Policy.free.Permits c action → (policy False).Permits c action := by
    intro c action _
    cases action with
    | run t choice => exact fun _ _ _ hfalse => hfalse.elim
    | cancel t => exact fun _ _ _ => trivial
    | start t entry => trivial
    | move m => trivial
    | reboot => trivial
  obtain ⟨hinv, hrecorded⟩ := reachable nofun hnew (run_mono _ hwide hrun)
  refine ⟨fun call hcall => ⟨?_, hinv.failed call hcall⟩, hinv.latest, hrecorded⟩
  exact hinv.answered call hcall

/-- In every run in which no reload stores its pair after a later one was
claimed, reloads are claimed at least an interval apart, and the cached pair is
never replaced by one of an earlier claim. -/
theorem reloads_spaced (interval : ℕ) (hpositive : 0 < interval)
    (certs : Except Report (List Bytes)) (key : Except Report Bytes) (time : ℤ) (clock : ℕ)
    (s : Shared) (hnew : ReloadingCertResolver.new certs key time clock = .ok s)
    (c : Config Op Res (Option CertifiedKey) Shared)
    (hrun : (machine interval).Run (policy True) ⟨s, fun _ => none⟩ c) :
    (c.shared.claims.Pairwise fun later earlier => earlier + interval ≤ later) ∧
      c.shared.stores.Pairwise fun later earlier => earlier.claimed ≤ later.claimed := by
  obtain ⟨hinv, -⟩ := reachable (fun _ => hpositive) hnew hrun
  have hspaced := hinv.spaced trivial
  exact ⟨hspaced.claims, hspaced.stores⟩

end Runs

section Plain

/-- Every key is supported and matches. -/
@[reducible] def plainRustls : RustlsCrate where
  anySupportedType _ := true
  keysMatch _ _ := true

/-- A certificate from 2020-01-01 to 2030-01-01 with empty names. -/
def plainCert : Bytes :=
  [0x30, 0x32, 0x30, 0x2b, 0x02, 0x01, 0x01, 0x30, 0x00, 0x30, 0x00, 0x30, 0x1e,
    0x17, 0x0d, 50, 48, 48, 49, 48, 49, 48, 48, 48, 48, 48, 48, 90,
    0x17, 0x0d, 51, 48, 48, 49, 48, 49, 48, 48, 48, 48, 48, 48, 90,
    0x30, 0x00, 0x30, 0x00, 0x30, 0x00, 0x03, 0x01, 0x00]

example : parseCertificateValidity plainCert = .ok (1577836800, 1893456000) := by decide +kernel

/-- The pair that loads with this key. -/
def plainPair (key : UInt8) : LoadedCertifiedKey := ⟨⟨[plainCert], [key]⟩, 1893456000⟩

/-- A resolver that loaded the first key in 2025. -/
def plainResolver : Shared where
  clock := 0
  time := 1735689600 * 10 ^ 9
  cached := plainPair 1
  since := 0
  loads := [plainPair 1]
  claims := []
  stores := [⟨none, 0, plainPair 1⟩]
  calls := []

theorem plainResolver_new :
    @ReloadingCertResolver.new plainRustls (.ok [plainCert]) (.ok [1]) (1735689600 * 10 ^ 9) 0 =
      .ok plainResolver := by
  decide +kernel

abbrev Actions : Type := List (Action Choice Unit Move)

/-- A call up to the store of the pair that it loaded with this key. -/
def loading (t : ℕ) (key : UInt8) : Actions :=
  [.start t (), .run t .ok, .run t .ok, .run t .ok, .run t .ok, .run t .ok,
    .run t (.certs (.ok [plainCert])), .run t .ok, .run t (.key (.ok [key])), .run t .ok]

/-- The store and the end of the call. -/
def storing (t : ℕ) : Actions := [.run t .ok, .run t .ok]

/-- Five seconds pass. -/
def fiveSeconds : Action Choice Unit Move := .move (.tick (5 * 10 ^ 9))

/-- The resolver with five seconds between reloads, without calls yet. -/
abbrev plainMachine : Machine Op Res (Option CertifiedKey) Shared Choice Unit Move :=
  @machine plainRustls (5 * 10 ^ 9)

abbrev plainStart : Config Op Res (Option CertifiedKey) Shared := ⟨plainResolver, fun _ => none⟩

/-- A reload answers with the new key. -/
theorem presented_certificates_valid_plain :
    ∃ c, plainMachine.runs plainStart (fiveSeconds :: loading 0 2 ++ storing 0) = some c ∧
      ∃ call ∈ c.shared.calls, call.result = some (plainPair 2).key ∧
        ∃ moment, call.started ≤ moment ∧ moment ≤ call.finished ∧
          ValidAt (plainPair 2).key.certs (unixTimestamp moment) := by
  have hend : (plainMachine.runs plainStart (fiveSeconds :: loading 0 2 ++ storing 0)).any
      (fun c => c.shared.calls.any fun call => call.result = some (plainPair 2).key) = true := by
    decide +kernel
  obtain ⟨c, hc, htest⟩ := exists_of_runs plainMachine hend
  obtain ⟨call, hcall, hresult⟩ := List.any_eq_true.mp htest
  have hvalid := @presented_certificates_valid plainRustls (5 * 10 ^ 9) _ _ _ _ plainResolver
    plainResolver_new c (run_of_runs plainMachine hc)
  have hkey : call.result = some (plainPair 2).key := by simpa using hresult
  exact ⟨c, hc, call, hcall, hkey, ((hvalid.1 call hcall).1 _ hkey).2⟩

/-- No store is overtaken by the action. -/
def timely (c : Config Op Res (Option CertifiedKey) Shared) : Action Choice Unit Move → Bool
  | .run t _ =>
    match c.tasks t with
    | some (.call (.store _ now) _) => c.shared.since = now
    | _ => true
  | _ => true

theorem permits_of_timely {c : Config Op Res (Option CertifiedKey) Shared}
    {action : Action Choice Unit Move} (h : timely c action = true) :
    (policy True).Permits c action := by
  cases action with
  | run t choice =>
    intro op next htask _ pair now hop
    subst hop
    unfold timely at h
    simp only [htask, decide_eq_true_eq] at h
    exact h
  | cancel t => exact fun _ _ _ => trivial
  | start t entry => trivial
  | move m => trivial
  | reboot => trivial

/-- Two reloads one after the other, five seconds apart. -/
theorem reloads_spaced_plain :
    ∃ c : Config Op Res (Option CertifiedKey) Shared, c.shared.claims = [10 ^ 10, 5 * 10 ^ 9] ∧
      c.shared.claims.Pairwise fun later earlier => earlier + 5 * 10 ^ 9 ≤ later := by
  have hend : (plainMachine.checkedRuns timely plainStart
      (fiveSeconds :: loading 0 2 ++ storing 0 ++ fiveSeconds :: loading 1 3 ++ storing 1)).any
      (fun c => c.shared.claims = [10 ^ 10, 5 * 10 ^ 9]) = true := by
    decide +kernel
  obtain ⟨c, hc, htest⟩ := Option.any_eq_true _ _ |>.mp hend
  have hrun := run_of_checked plainMachine (policy True) (fun _ _ => permits_of_timely) hc
  exact ⟨c, by simpa using htest, (@reloads_spaced plainRustls (5 * 10 ^ 9) (by decide) _ _ _ _
    plainResolver plainResolver_new c hrun).1⟩

/-- The reload claimed at five seconds stores its pair after the one claimed at
ten: the older pair replaces the newer one, and with the instant of its claim
beside it a third reload is claimed at ten seconds as well. -/
theorem overtaken_reload_regresses :
    ∃ c, plainMachine.runs plainStart (fiveSeconds :: loading 0 2 ++
        fiveSeconds :: loading 1 3 ++ storing 1 ++ storing 0 ++ loading 2 4) = some c ∧
      c.shared.claims = [10 ^ 10, 10 ^ 10, 5 * 10 ^ 9] ∧
      c.shared.stores.map Store.claimed = [5 * 10 ^ 9, 10 ^ 10, 0] := by
  have hend : (plainMachine.runs plainStart (fiveSeconds :: loading 0 2 ++
      fiveSeconds :: loading 1 3 ++ storing 1 ++ storing 0 ++ loading 2 4)).any
      (fun c => c.shared.claims = [10 ^ 10, 10 ^ 10, 5 * 10 ^ 9] &&
        c.shared.stores.map Store.claimed = [5 * 10 ^ 9, 10 ^ 10, 0]) = true := by
    decide +kernel
  obtain ⟨c, hc, htest⟩ := exists_of_runs plainMachine hend
  simp only [Bool.and_eq_true, decide_eq_true_eq] at htest
  exact ⟨c, hc, htest⟩

end Plain

end OpenTfMirror.TlsProofs
