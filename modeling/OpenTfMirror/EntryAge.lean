import OpenTfMirror.RefreshTraces

/-!
# The age of served entries

A loader that neither attempts a refresh nor is in backoff answers with an entry
that it judged fresh against the clock. The difference it takes is cut at zero,
so the judgement bounds the age of those entries only that are not from the
future.
-/

namespace OpenTfMirror.EntryAge

open TaskProgram TaskTraces Fallible KeyedLocks LockSections Outbound Provider Metadata
  MetadataService MetadataMachine RefreshTraces

section Freshness

variable {α : Type}

/-- `ttl` of `CacheEntry::fresh`, in nanoseconds. -/
def timeToLive (self : ProviderMetadataService) (entry : CacheEntry α) : ℕ :=
  if entry.complete then self.freshness else refreshBackoff

/-- When the clock reads `now`, the entry is from the past and younger than its
time to live. -/
structure Young (service : ProviderMetadataService) (entry : CacheEntry α) (now : ℕ) : Prop where
  past : entry.fetchedAt ≤ now
  age : (now - entry.fetchedAt) * 10 ^ 9 < timeToLive service entry

/-- A fresh entry is young unless it is from the future. -/
theorem young_iff_of_fresh {self : ProviderMetadataService} {entry : CacheEntry α} {now : ℕ}
    (h : entry.fresh now self.freshness refreshBackoff = true) :
    Young self entry now ↔ entry.fetchedAt ≤ now := by
  constructor
  · exact Young.past
  · intro hpast
    have hage : now - entry.fetchedAt < timeToLive self entry / 10 ^ 9 := by
      unfold CacheEntry.fresh at h
      exact of_decide_eq_true h
    have hwhole : timeToLive self entry / 10 ^ 9 * 10 ^ 9 ≤ timeToLive self entry :=
      Nat.div_mul_le_self _ _
    exact ⟨hpast, by omega⟩

end Freshness

section Loaders

variable {K α : Type} {self : ProviderMetadataService} {L : Loader K α} {key : K}
variable {trace : List (Sigma Res)} {entry : CacheEntry α}

/-- The entry was read from the cache and judged fresh when the clock read `now`. -/
def JudgedFresh (self : ProviderMetadataService) (L : Loader K α) (key : K)
    (trace : List (Sigma Res)) (entry : CacheEntry α) (now : ℕ) : Prop :=
  (∃ before reading after, trace = before ++ (reading ++ [⟨.nowEpoch, now⟩]) ++ after ∧
    Traced (L.entry key) reading (some entry)) ∧
  entry.fresh now self.freshness refreshBackoff = true

/-- The retry timer did not allow a refresh. -/
def BackedOff (L : Loader K α) (key : K) (trace : List (Sigma Res)) : Prop :=
  ⟨.refreshAllowed (L.timer key) .load, false⟩ ∈ trace

/-- A refresh was called, and ended. -/
def Attempted (L : Loader K α) (key : K) (trace : List (Sigma Res)) : Prop :=
  ∃ before refreshing after outcome, trace = before ++ refreshing ++ after ∧
    Traced (L.refresh key).run refreshing outcome

/-- Why a loader answered. -/
def Answered (self : ProviderMetadataService) (L : Loader K α) (key : K)
    (trace : List (Sigma Res)) (entry : CacheEntry α) : Prop :=
  Attempted L key trace ∨ BackedOff L key trace ∨ ∃ now, JudgedFresh self L key trace entry now

/-- What is a reason within a part of the trace is one within the whole. -/
theorem Answered.within (h : Answered self L key trace entry) (before after : List (Sigma Res)) :
    Answered self L key (before ++ trace ++ after) entry := by
  rcases h with ⟨first, refreshing, last, outcome, rfl, hrefresh⟩ | hbackoff |
    ⟨now, ⟨first, reading, last, rfl, hreading⟩, hfresh⟩
  · exact .inl ⟨before ++ first, refreshing, last ++ after, outcome, by simp, hrefresh⟩
  · exact .inr (.inl (List.mem_append_left _ (List.mem_append_right _ hbackoff)))
  · exact .inr (.inr ⟨now, ⟨before ++ first, reading, last ++ after, by simp, hreading⟩, hfresh⟩)

/-- A fresh entry was read just before the clock. -/
theorem freshEntry_trace (h : Traced (L.freshEntry self key) trace (some entry)) :
    Answered self L key trace entry := by
  unfold Loader.freshEntry at h
  obtain ⟨reading, rest, cached, rfl, hreading, h⟩ := traced_bind.mp h
  cases cached with
  | none => cases (traced_done.mp h).2
  | some found =>
    obtain ⟨clock, rest, now, rfl, hclock, h⟩ := traced_bind.mp h
    rw [traced_op.mp hclock]
    split at h
    · next hfresh =>
        obtain ⟨rfl, heq⟩ := traced_done.mp h
        cases heq
        exact .inr (.inr ⟨now, ⟨[], reading, [], by simp, hreading⟩, hfresh⟩)
    · cases (traced_done.mp h).2

theorem refreshOrCached_trace (h : Traced (L.refreshOrCached key).run trace (.ok entry)) :
    Answered self L key trace entry := by
  unfold Loader.refreshOrCached at h
  obtain ⟨reading, rest, cached, rfl, -, h⟩ := traced_lift_bind.mp h
  obtain ⟨asking, rest, allowed, rfl, hasking, h⟩ := traced_lift_bind.mp h
  rw [traced_op.mp hasking]
  cases allowed with
  | false => exact .inr (.inl (by simp [BackedOff]))
  | true =>
    obtain ⟨refreshing, rest, outcome, rfl, hrefresh, -⟩ := traced_lift_bind.mp h
    exact .inl ⟨reading ++ [⟨.refreshAllowed (L.timer key) .load, true⟩], refreshing, rest, outcome,
      by simp, hrefresh⟩

theorem loadLocked_trace (h : Traced (L.loadLocked self key).run trace (.ok entry)) :
    Answered self L key trace entry := by
  unfold Loader.loadLocked at h
  obtain ⟨first, rest, cached, rfl, hfirst, h⟩ := traced_lift_bind.mp h
  cases cached with
  | some found =>
    obtain ⟨rfl, heq⟩ := traced_done.mp h
    cases heq
    simpa using (freshEntry_trace hfirst).within [] []
  | none =>
    rcases traced_run_bind h with ⟨persisted, rest, ⟨⟩, rfl, -, h⟩ | ⟨error, herror, -⟩
    · obtain ⟨second, rest, cached, rfl, hsecond, h⟩ := traced_lift_bind.mp h
      cases cached with
      | some found =>
        obtain ⟨rfl, heq⟩ := traced_done.mp h
        cases heq
        simpa using (freshEntry_trace hsecond).within (first ++ persisted) []
      | none =>
        have hrest : Answered self L key rest entry := refreshOrCached_trace h
        simpa using hrest.within (first ++ (persisted ++ second)) []
    · cases herror

/-- A loader answers after it attempted a refresh, or in backoff, or with an entry
that it judged fresh. -/
theorem load_trace (h : Traced (L.load self key).run trace (.ok entry)) :
    Answered self L key trace entry := by
  unfold Loader.load at h
  obtain ⟨entering, rest, presence, rfl, -, h⟩ := traced_bind.mp h
  obtain ⟨body, rest, result, rfl, hbody, h⟩ := traced_bind.mp h
  obtain ⟨leaving, rest, ⟨⟩, rfl, -, h⟩ := traced_bind.mp h
  obtain ⟨rfl, rfl⟩ := traced_done.mp h
  have hanswered : Answered self L key body entry := by
    obtain ⟨first, rest, cached, rfl, hfirst, h⟩ := traced_bind.mp hbody
    cases cached with
    | some found =>
      obtain ⟨rfl, heq⟩ := traced_done.mp h
      cases heq
      simpa using (freshEntry_trace hfirst).within [] []
    | none =>
      obtain ⟨before, inside, after, rfl, hinside⟩ := traced_guarded h
      simpa using (loadLocked_trace hinside).within (first ++ before) after
  simpa using hanswered.within entering leaving

end Loaders

section Claims

variable (U : Type) [UrlCrate U] [SemverCrate] [JsonCrate] (self : ProviderMetadataService)

/-- The loader attempted a refresh, or was in backoff, or judged its answer fresh,
and then the answer is young just when it is not from the future. -/
def YoungUnlessFuture {K α : Type} (L : Loader K α) (key : K) (trace : List (Sigma Res))
    (entry : CacheEntry α) : Prop :=
  Attempted L key trace ∨ BackedOff L key trace ∨
    ∃ now, JudgedFresh self L key trace entry now ∧
      (Young self entry now ↔ entry.fetchedAt ≤ now)

omit [SemverCrate] [JsonCrate] in
theorem youngUnlessFuture_of_answered {K α : Type} {L : Loader K α} {key : K}
    {trace : List (Sigma Res)} {entry : CacheEntry α} (h : Answered self L key trace entry) :
    YoungUnlessFuture self L key trace entry := by
  rcases h with hattempted | hbackoff | ⟨now, hjudged⟩
  · exact .inl hattempted
  · exact .inr (.inl hbackoff)
  · exact .inr (.inr ⟨now, hjudged, young_iff_of_fresh hjudged.2⟩)

/-- An index or a version that is served without an attempted refresh and without
backoff is young, just when it is not from the future. -/
theorem served_young_iff :
    (∀ key trace entry, Traced (loadIndex self key).run trace (.ok entry) →
      YoungUnlessFuture self (indexLoader self) key trace entry) ∧
    ∀ key trace entry, Traced (loadVersion U self key).run trace (.ok entry) →
      YoungUnlessFuture self (versionLoader U self) key trace entry := by
  constructor
  · intro key trace entry h
    exact youngUnlessFuture_of_answered self (load_trace h)
  · intro key trace entry h
    exact youngUnlessFuture_of_answered self (load_trace h)

/-- What a loader does that finds this index fresh at 110. -/
def freshTrace (index : IndexEntry) : List (Sigma Res) :=
  [⟨.enterIndex PlainMetadata.plainProvider, .cached⟩,
    ⟨.indexEntry PlainMetadata.plainProvider, some index⟩, ⟨.nowEpoch, (110 : ℕ)⟩,
    ⟨.leaveIndex PlainMetadata.plainProvider .cached (.ok index), ()⟩]

omit [UrlCrate U] [SemverCrate] [JsonCrate] in
/-- An index from 100 is served at 110. -/
theorem served_young_plain :
    letI := PlainMetadata.plainJson
    YoungUnlessFuture minuteService (indexLoader minuteService) PlainMetadata.plainProvider
      (freshTrace (PlainMetadata.plainIndex 100 ["1.0.0"]))
      (PlainMetadata.plainIndex 100 ["1.0.0"]) := by
  let _ := PlainMetadata.plainJson
  have htraced : Traced (loadIndex minuteService PlainMetadata.plainProvider).run
      (freshTrace (PlainMetadata.plainIndex 100 ["1.0.0"]))
      (.ok (PlainMetadata.plainIndex 100 ["1.0.0"])) :=
    .call (.call (.call (.call (.done _))))
  exact (@served_young_iff PlainUrl _ PlainLibraries.plainSemver _ minuteService).1 _ _ _ htraced

omit [UrlCrate U] [SemverCrate] [JsonCrate] in
/-- An index from 1000 is served at 110, before its time and without a refresh, and
in this way until 1060. -/
theorem future_index_served :
    letI := PlainMetadata.plainJson
    Traced (loadIndex minuteService PlainMetadata.plainProvider).run
        (freshTrace (PlainMetadata.plainIndex 1000 ["1.0.0"]))
        (.ok (PlainMetadata.plainIndex 1000 ["1.0.0"])) ∧
      (∀ event ∈ freshTrace (PlainMetadata.plainIndex 1000 ["1.0.0"]),
        event.1 ≠ .startVersions PlainMetadata.plainProvider ∧
          ∀ timer site, event.1 ≠ .refreshAllowed timer site) ∧
      ¬ Young minuteService (PlainMetadata.plainIndex 1000 ["1.0.0"]) 110 := by
  refine ⟨.call (.call (.call (.call (.done _)))), ?_, fun h => ?_⟩
  · intro event hevent
    simp only [freshTrace, List.mem_cons, List.not_mem_nil, or_false] at hevent
    rcases hevent with rfl | rfl | rfl | rfl
    · exact ⟨nofun, nofun⟩
    · exact ⟨nofun, nofun⟩
    · exact ⟨nofun, nofun⟩
    · exact ⟨nofun, nofun⟩
  · exact absurd h.past (by decide)

end Claims

end OpenTfMirror.EntryAge
