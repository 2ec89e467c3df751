import OpenTfMirror.DiscoveryProofs
import OpenTfMirror.TaskHistory

/-!
# Refusals of discovery

A call of `discover` that fails with `DiscoveryBackoff` does so at the instant at
which it last read the clock, and within 30 seconds after a discovery request to
its host failed, if failures are recorded when they happen. A history notes when
each call reads the clock.
-/

namespace OpenTfMirror.DiscoveryRefusals

open TaskProgram TaskLogic TaskHistory Fallible TextOps Outbound Metadata Discovery DiscoveryProofs

section Assertions

variable {U : Type}

/-- The calls that read the clock, with the time they read. -/
def note (t : ℕ) (s : Shared U) (op : Op U) (_ : Choice U) : List (ℕ × ℕ) :=
  match op with
  | .instantNow | .recordFailure _ _ => [(t, s.clock)]
  | _ => []

/-- Discovery beside the times that were read. -/
abbrev State (U : Type) := Noted (Shared U) (ℕ × ℕ)

/-- A failed discovery is recorded at the instant at which its request ended. -/
def prompt : Policy (Op U) (Shared U) (Choice U) String Move where
  start _ _ _ := True
  run _ s op _ :=
    match op with
    | .recordFailure hostname _ => .completed hostname s.clock false ∈ s.history
    | _ => True
  cancel _ _ _ := True
  move _ _ := True
  reboot := True

/-- The call last read the clock within the retry delay after a failed request to
the host. -/
def Refused (t : ℕ) (hostname : String) (s : State U) : Prop :=
  ∃ time failed, s.history.lookup t = some time ∧
    .completed hostname failed false ∈ s.state.history ∧ failed ≤ time ∧ time < failed + retryDelay

/-- What a retry time in the cache comes from. -/
def Founded (hostname : String) (retryAt : ℕ) (s : Shared U) : Prop :=
  ∃ failed, .completed hostname failed false ∈ s.history ∧ failed ≤ s.clock ∧
    retryAt = failed + retryDelay

/-- All retry times come from failed requests. -/
def Grounded (s : Shared U) : Prop :=
  ∀ hostname entry retryAt, s.cache.lookup hostname = some entry →
    entry.retryAt = some retryAt → Founded hostname retryAt s

/-- Time and history grow. -/
structure Later (s s' : Shared U) : Prop where
  clock : s.clock ≤ s'.clock
  history : ∀ event ∈ s.history, event ∈ s'.history

theorem later_refl (s : Shared U) : Later s s := ⟨Nat.le_refl _, fun _ h => h⟩

theorem later_trans {s₁ s₂ s₃ : Shared U} (h : Later s₁ s₂) (h' : Later s₂ s₃) : Later s₁ s₃ :=
  ⟨Nat.le_trans h.clock h'.clock, fun event hevent => h'.history event (h.history event hevent)⟩

/-- What the others leave to a call: its own readings are its own. -/
structure Spared (t : ℕ) (s s' : State U) : Prop where
  later : Later s.state s'.state
  readings : s'.history.lookup t = s.history.lookup t

theorem Refused.spared {t : ℕ} {hostname : String} {s s' : State U} (h : Refused t hostname s)
    (hspared : Spared t s s') : Refused t hostname s' := by
  obtain ⟨time, failed, hread, hfailed, hrest⟩ := h
  exact ⟨time, failed, hspared.readings.trans hread, hspared.later.history _ hfailed, hrest⟩

theorem Founded.later {hostname : String} {retryAt : ℕ} {s s' : Shared U}
    (h : Founded hostname retryAt s) (hlater : Later s s') : Founded hostname retryAt s' := by
  obtain ⟨failed, hfailed, hpast, heq⟩ := h
  exact ⟨failed, hlater.history _ hfailed, Nat.le_trans hpast hlater.clock, heq⟩

/-- Nothing but time and history changed. -/
theorem grounded_later {s s' : Shared U} (h : Grounded s) (hlater : Later s s')
    (hcache : s'.cache = s.cache) : Grounded s' := by
  intro hostname entry retryAt hlookup hretry
  rw [hcache] at hlookup
  exact (h hostname entry retryAt hlookup hretry).later hlater

/-- A new entry of the host, with a founded retry time if any. -/
theorem grounded_insert {hostname : String} {entry : DiscoveryEntry U} {s s' : Shared U}
    (h : Grounded s) (hlater : Later s s') (hcache : s'.cache = s.cache.insert hostname entry)
    (hentry : ∀ retryAt, entry.retryAt = some retryAt → Founded hostname retryAt s') :
    Grounded s' := by
  intro hostname' entry' retryAt hlookup hretry
  rw [hcache] at hlookup
  by_cases heq : hostname' = hostname
  · rw [heq, AList.lookup_insert] at hlookup
    cases hlookup
    rw [heq]
    exact hentry retryAt hretry
  · rw [AList.lookup_insert_ne heq] at hlookup
    exact (h hostname' entry' retryAt hlookup hretry).later hlater

/-- The assertions: no operation needs anything. -/
def grounds : Assertions (Op U) (State U) where
  inv s := Grounded s.state
  frame := Spared
  pre _ _ _ := True
  frame_refl _ s := ⟨later_refl s.state, rfl⟩
  frame_trans _ _ _ _ h h' := ⟨later_trans h.later h'.later, h'.readings.trans h.readings⟩

end Assertions

section Steps

variable {U : Type} [UrlCrate U] [OriginCrate U] {client : RegistryClient U} {t : ℕ}

/-- Every operation keeps the retry times founded. -/
theorem exec_grounded {s s' : Shared U} {op : Op U} {choice : Choice U} {answer : Res U op}
    (hs : Grounded s) (hprompt : prompt.run t s op choice)
    (h : exec client t s op choice = some (answer, s')) : Grounded s' ∧ Later s s' := by
  have hquiet : ∀ {s' : Shared U}, s'.clock = s.clock → s'.history = s.history → s'.cache = s.cache →
      Grounded s' ∧ Later s s' := by
    intro s' hclock hhistory hcache
    have hlater : Later s s' := by
      refine ⟨by omega, fun event hevent => ?_⟩
      rw [hhistory]
      exact hevent
    exact ⟨grounded_later hs hlater hcache, hlater⟩
  cases op with
  | lockFor hostname =>
    have heq : s.lockFor hostname = (answer, s') := always_some h
    unfold Shared.lockFor at heq
    split at heq
    · cases heq
      exact hquiet rfl rfl rfl
    · cases heq
      exact hquiet rfl rfl rfl
  | acquire mutex =>
    unfold exec at h
    dsimp only at h
    split at h
    · cases h
    · cases always_some h
      exact hquiet rfl rfl rfl
  | startDiscovery hostname =>
    cases always_some h
    have hlater : Later s { s with
        inFlight := (t, hostname) :: s.inFlight
        history := .started t hostname s.clock :: s.history } :=
      ⟨Nat.le_refl _, fun event hevent => List.mem_cons_of_mem _ hevent⟩
    exact ⟨grounded_later hs hlater rfl, hlater⟩
  | awaitDiscovery hostname =>
    unfold exec at h
    cases choice with
    | ok => cases h
    | answer found =>
      cases h
      have hlater : Later s (s.arrive client t hostname answer) :=
        ⟨Nat.le_refl _, fun event hevent => List.mem_cons_of_mem _ hevent⟩
      exact ⟨grounded_later hs hlater rfl, hlater⟩
  | storeOrigin hostname origin =>
    cases always_some h
    have hlater : Later s (s.storeOrigin t hostname origin) := ⟨Nat.le_refl _, fun _ h => h⟩
    exact ⟨grounded_insert hs hlater rfl nofun, hlater⟩
  | recordFailure hostname error =>
    have hfailed : .completed hostname s.clock false ∈ s.history := hprompt
    cases always_some h
    have hlater : Later s (s.recordFailure t hostname error).2 := ⟨Nat.le_refl _, fun _ h => h⟩
    refine ⟨grounded_insert hs hlater rfl fun retryAt hretry => ?_, hlater⟩
    cases hretry
    exact ⟨s.clock, hfailed, Nat.le_refl _, rfl⟩
  | _ => cases always_some h; exact hquiet rfl rfl rfl

omit [UrlCrate U] [OriginCrate U] in
/-- What one call notes is not read back for another. -/
theorem lookup_note {t' : ℕ} (hne : t' ≠ t) (s : Shared U) (op : Op U) (choice : Choice U)
    (history : List (ℕ × ℕ)) :
    (note t s op choice ++ history).lookup t' = history.lookup t' := by
  have hdiffer : (t' == t) = false := beq_eq_false_iff_ne.mpr hne
  cases op with
  | instantNow => exact List.lookup_cons.trans (by rw [hdiffer]; rfl)
  | recordFailure hostname error => exact List.lookup_cons.trans (by rw [hdiffer]; rfl)
  | _ => rfl

end Steps

section Programs

variable {U : Type} [UrlCrate U] [OriginCrate U] {client : RegistryClient U} {t : ℕ} {s : State U}
variable {hostname : String}

/-- The client beside the times that were read. -/
abbrev noted (client : RegistryClient U) :
    Machine (Op U) (Res U) (Out U) (State U) (Choice U) String Move :=
  noting (machine client) note

/-- Verified against the grounds. -/
abbrev Refusing (client : RegistryClient U) (t : ℕ) {α : Type} (program : Code U α)
    (Q : α → State U → Prop) (s : State U) : Prop :=
  wp grounds (besides prompt) (noted client) t program Q s

/-- A refusal has its reason. -/
def Reasoned (t : ℕ) (hostname : String) (result : Except RegistryError U) (s : State U) : Prop :=
  result = .error .discoveryBackoff → Refused t hostname s

omit [UrlCrate U] [OriginCrate U] in
theorem stable_reasoned (result : Except RegistryError U) :
    Stable grounds t (Reasoned t hostname result) :=
  fun _ _ _ hspared h hresult => (h hresult).spared hspared

/-- An operation after which nothing must be known. -/
theorem refusing_call {op : Op U} {α : Type} {next : Res U op → Code U α} {Q : α → State U → Prop}
    (hnext : ∀ answer s', Refusing client t (next answer) Q s') :
    Refusing client t (.call op next) Q s :=
  fun _ _ _ => ⟨trivial, fun _ answer s' _ _ _ => hnext answer s'⟩

/-- An operation that notes nothing and answers nothing keeps a reason. -/
theorem refusing_unit {op : Op U} {α : Type} {next : Res U op → Code U α} {Q : α → State U → Prop}
    {result : Except RegistryError U}
    (hnote : ∀ s choice, note t s op choice = [])
    (hlater : ∀ s choice answer s', exec client t s op choice = some (answer, s') →
      s'.history = s.history)
    (hs : Reasoned t hostname result s)
    (hnext : ∀ answer s', Reasoned t hostname result s' → Refusing client t (next answer) Q s') :
    Refusing client t (.call op next) Q s := by
  refine wp_call hs (stable_reasoned result) (fun _ _ _ => trivial)
    fun s₁ choice answer s₂ _ hs₁ _ hexec _ => hnext answer s₂ fun hresult => ?_
  obtain ⟨time, failed, hread, hfailed, hrest⟩ := hs₁ hresult
  obtain ⟨hexec', hhistory⟩ := noting_exec hexec
  rw [hnote, List.nil_append] at hhistory
  refine ⟨time, failed, ?_, ?_, hrest⟩
  · rw [hhistory]
    exact hread
  · rw [hlater _ _ _ _ hexec']
    exact hfailed

/-- The check of the cache refuses with a reason. -/
theorem refusing_checkCache :
    Refusing client t (checkCache hostname)
      (fun found s' => ∀ result, found = some result → Reasoned t hostname result s') s := by
  unfold checkCache
  refine (wp_bind t _ _ _ s).mpr ?_
  refine wp_call trivial (Stable.const True) (fun _ _ _ => trivial)
    fun s₁ choice answer s₂ hinv _ _ hexec hinv₂ => ?_
  obtain ⟨hexec', -⟩ := noting_exec hexec
  have hanswer : s₁.state.cache.lookup hostname = answer ∧ s₁.state = s₂.state :=
    Prod.mk.inj (always_some hexec')
  refine (wp_done t _ _ _).mpr ?_
  cases answer with
  | none => exact (wp_done t _ _ _).mpr nofun
  | some entry =>
    dsimp only
    have hentry : ∀ retryAt, entry.retryAt = some retryAt → Founded hostname retryAt s₂.state := by
      intro retryAt hretry
      rw [← hanswer.2]
      exact hinv hostname entry retryAt hanswer.1 hretry
    have hstable : Stable grounds t fun s : State U => ∀ retryAt, entry.retryAt = some retryAt →
        Founded hostname retryAt s.state :=
      fun _ _ _ hspared h retryAt hretry => (h retryAt hretry).later hspared.later
    refine (wp_bind t _ _ _ s₂).mpr ?_
    refine wp_call hentry hstable (fun _ _ _ => trivial)
      fun s₃ choice now s₄ _ hentry₃ _ hexec _ => ?_
    obtain ⟨hexec', -⟩ := noting_exec hexec
    have hstate : s₃.state = s₄.state := (Prod.mk.inj (always_some hexec')).2
    rw [hstate] at hentry₃
    refine (wp_done t _ _ _).mpr ?_
    split
    · next hyoung =>
        -- a young origin is answered, and no refusal
        refine (wp_done t _ _ _).mpr fun result hresult hrefused => ?_
        cases hresult
        unfold DiscoveryEntry.settled at hrefused
        cases horigin : entry.origin with
        | some origin =>
          rw [horigin] at hrefused
          cases hrefused
        | none => simp [horigin] at hyoung
    · cases hretry : entry.retryAt with
      | none => exact (wp_done t _ _ _).mpr nofun
      | some retryAt =>
        dsimp only
        refine (wp_bind t _ _ _ s₄).mpr ?_
        refine wp_call hentry₃ hstable (fun _ _ _ => trivial)
          fun s₅ choice now s₆ _ hentry₅ _ hexec _ => ?_
        obtain ⟨hexec', hhistory⟩ := noting_exec hexec
        have hanswer : s₅.state.clock = now ∧ s₅.state = s₆.state :=
          Prod.mk.inj (always_some hexec')
        refine (wp_done t _ _ _).mpr ?_
        split
        · next hearly =>
            refine (wp_done t _ _ _).mpr fun _ _ _ => ?_
            obtain ⟨failed, hfailed, hpast, heq⟩ := hentry₅ retryAt hretry
            refine ⟨now, failed, ?_, ?_, ?_, ?_⟩
            · rw [hhistory, ← hanswer.1]
              exact List.lookup_cons_self
            · rw [← hanswer.2]
              exact hfailed
            · rw [← hanswer.1]
              exact hpast
            · rw [← heq]
              exact hearly
        · exact (wp_done t _ _ _).mpr nofun

/-- A request that is answered with a refusal has failed just then. -/
theorem refusing_requestOrigin :
    Refusing client t (requestOrigin client hostname) (Reasoned t hostname) s := by
  unfold requestOrigin
  split
  · next error hjoin =>
      refine (wp_done t _ _ _).mpr fun hrefused => ?_
      cases hrefused
      unfold joinUrl at hjoin
      split at hjoin
      · cases hjoin
      · cases hjoin
  · refine (wp_bind t _ _ _ s).mpr (refusing_call fun _ s₁ => ?_)
    refine (wp_done t _ _ _).mpr ((wp_bind t _ _ _ s₁).mpr (refusing_call fun document s₂ => ?_))
    refine (wp_done t _ _ _).mpr ?_
    split
    · next origin _ =>
        refine (wp_bind t _ _ _ s₂).mpr (refusing_call fun _ s₃ => ?_)
        exact (wp_done t _ _ _).mpr nofun
    · next error _ =>
        refine wp_call trivial (Stable.const True) (fun _ _ _ => trivial)
          fun s₃ choice answer s₄ _ _ hprompt hexec _ => ?_
        have hfailed : .completed hostname s₃.state.clock false ∈ s₃.state.history := hprompt
        obtain ⟨hexec', hhistory⟩ := noting_exec hexec
        have hstate : (s₃.state.recordFailure t hostname error).2 = s₄.state :=
          (Prod.mk.inj (always_some hexec')).2
        refine (wp_done t _ _ _).mpr fun _ => ⟨s₃.state.clock, s₃.state.clock, ?_, ?_, le_rfl, ?_⟩
        · rw [hhistory]
          exact List.lookup_cons_self
        · rw [← hstate]
          exact hfailed
        · have hdelay : 0 < retryDelay := by decide
          omega

/-- A whole call of `discover`. -/
theorem refusing_discover :
    Refusing client t (discover client hostname) (Reasoned t hostname) s := by
  unfold discover
  refine (wp_bind t _ _ _ s).mpr (wp_mono refusing_checkCache fun found s₁ hfound => ?_)
  cases found with
  | some result => exact (wp_done t _ _ _).mpr (hfound result rfl)
  | none =>
    refine (wp_bind t _ _ _ s₁).mpr (refusing_call fun mutex s₂ => ?_)
    refine (wp_done t _ _ _).mpr ((wp_bind t _ _ _ s₂).mpr (refusing_call fun _ s₃ => ?_))
    refine (wp_done t _ _ _).mpr ((wp_bind t _ _ _ s₃).mpr
      (wp_mono (Q := Reasoned t hostname) ?_ fun result s₄ hresult => ?_))
    · refine (wp_bind t _ _ _ s₃).mpr (wp_mono refusing_checkCache fun found s₄ hfound => ?_)
      cases found with
      | some result => exact (wp_done t _ _ _).mpr (hfound result rfl)
      | none => exact refusing_requestOrigin
    · refine (wp_bind t _ _ _ s₄).mpr ?_
      refine refusing_unit (fun _ _ => rfl) (fun s choice answer s' hexec => ?_) hresult
        fun _ s₅ hresult₅ => (wp_done t _ _ _).mpr ((wp_done t _ _ _).mpr hresult₅)
      rw [← (Prod.mk.inj (always_some hexec)).2]

/-- How a call ends. -/
def Ended (t : ℕ) : Out U → State U → Prop
  | .answered hostname result, s => Reasoned t hostname result s
  | .dropped, _ => True

/-- The call with its trace points. -/
theorem refusing_call_spec : Refusing client t (call client hostname) (Ended t) s := by
  unfold call
  refine (wp_bind t _ _ _ s).mpr (refusing_call fun answer s₁ => ?_)
  refine (wp_done t _ _ _).mpr ((wp_bind t _ _ _ s₁).mpr (wp_mono refusing_discover fun result s₂ hs₂ => ?_))
  refine (wp_bind t _ _ _ s₂).mpr ?_
  refine refusing_unit (fun _ _ => rfl) (fun s choice answer s' hexec => ?_) hs₂ fun _ s₃ hs₃ => hs₃
  rw [← (Prod.mk.inj (always_some hexec)).2]

end Programs

section Runs

variable {U : Type} [UrlCrate U] [OriginCrate U]

theorem refusals_sound (client : RegistryClient U) :
    Sound grounds (besides prompt) (noted client) Ended where
  exec t s op choice answer s' hinv _ hprompt hexec := by
    obtain ⟨hexec', hhistory⟩ := noting_exec hexec
    obtain ⟨hgrounded, hlater⟩ := exec_grounded hinv hprompt hexec'
    refine ⟨hgrounded, fun t' hne => ⟨hlater, ?_⟩⟩
    rw [hhistory]
    exact lookup_note hne _ _ _ _
  start t s hostname program s' hinv _ hstart := by
    obtain ⟨hstart', hhistory⟩ := noting_start hstart
    have hunused : (if s.state.unused t then some (call client hostname, s.state) else none) =
        some (program, s'.state) := hstart'
    split at hunused
    · obtain ⟨rfl, hstate⟩ := Prod.mk.inj (Option.some.inj hunused)
      have hlater : Later s.state s'.state := hstate ▸ later_refl s.state
      refine ⟨?_, fun t' _ => ⟨hlater, by rw [hhistory]⟩, refusing_call_spec⟩
      exact grounded_later hinv hlater (by rw [hstate])
    · cases hunused
  cancel t s op s' hinv _ _ hcancel := by
    obtain ⟨hcancel', hhistory⟩ := noting_cancel hcancel
    have hdropped : s'.state = s.state.dropped t := by
      cases op with
      | acquire mutex => exact (Option.some.inj hcancel').symm
      | awaitDiscovery hostname => exact (Option.some.inj hcancel').symm
      | _ => cases hcancel'
    have hlater : Later s.state s'.state := by
      rw [hdropped]
      exact ⟨Nat.le_refl _, fun _ h => h⟩
    refine ⟨grounded_later hinv hlater (by rw [hdropped]; rfl), fun t' _ => ⟨hlater, by rw [hhistory]⟩, ?_⟩
    exact (wp_done t _ _ _).mpr trivial
  move s m s' hinv _ hmove := by
    obtain ⟨hmove', hhistory⟩ := noting_move hmove
    cases m with
    | tick duration =>
      have hstate := Option.some.inj hmove'
      have hlater : Later s.state s'.state := by
        rw [← hstate]
        exact ⟨Nat.le_add_right _ _, fun _ h => h⟩
      exact ⟨grounded_later hinv hlater (by rw [← hstate]), fun t => ⟨hlater, by rw [hhistory]⟩⟩
  reboot s s' _ _ hreboot := by cases (noting_reboot hreboot).1
  post t out := by
    cases out with
    | answered hostname result => exact stable_reasoned result
    | dropped => exact Stable.const True

/-- A new client, beside no readings. -/
def fresh (U : Type) (clock : ℕ) : Config (Op U) (Res U) (Out U) (State U) :=
  ⟨⟨boot U clock, []⟩, fun _ => none⟩

/-- In every run in which failures are recorded when they happen, a call that
fails with `DiscoveryBackoff` was refused after a failed request to its host. -/
theorem calls_refused (client : RegistryClient U) {clock t : ℕ} {hostname : String}
    {c : Config (Op U) (Res U) (Out U) (State U)}
    (hrun : (noted client).Run (besides prompt) (fresh U clock) c)
    (htask : c.tasks t = some (.done (.answered hostname (.error .discoveryBackoff)))) :
    Refused t hostname c.shared := by
  have hboot : grounds.inv ⟨boot U clock, []⟩ := fun _ _ _ hlookup _ => by cases hlookup
  exact (adequacy (refusals_sound client) (verified_idle hboot) hrun).result htask rfl

end Runs

end OpenTfMirror.DiscoveryRefusals
