import OpenTfMirror.KeyedLocks
import OpenTfMirror.TaskLogic

/-!
# Critical sections under a mutex created on demand

The whole life of a handle around a piece of code, on every way out of it, and
its proof rule: the body is verified as the holder of the key, and whatever it
leaves that does not speak about the table is still true after the section.
-/

namespace OpenTfMirror.LockSections

open TaskProgram TaskLogic KeyedLocks

variable {Op : Type} {Res : Op → Type} {Out Shared Choice Entry Move α K : Type}

/-- Take the key's mutex, run the body, and run the destructors. -/
def guarded (embed : LockOp K → Prog Op Res Unit) (k : K) (body : Prog Op Res α) :
    Prog Op Res α := do
  embed (.lockFor k)
  embed .acquire
  let result ← body
  embed .release
  embed .dropBody
  embed .releaseArc
  return result

variable [DecidableEq K]

/-- How a machine gives one of its tasks access to a table in its state. -/
structure LockAccess (A : Assertions Op Shared) (P : Policy Op Shared Choice Entry Move)
    (M : Machine Op Res Out Shared Choice Entry Move) (t : ℕ) (table : Shared → LockTable K)
    (replace : Shared → LockTable K → Shared) (admissible : K → Prop) (context : Shared → Prop)
    (embed : LockOp K → Prog Op Res Unit) : Prop where
  /-- The table is consistent between operations. -/
  consistent : ∀ s, A.inv s → (table s).Consistent
  /-- The others leave the task's handle and guards alone. -/
  same : ∀ s s', A.frame t s s' → (table s).Same t (table s')
  /-- The table is replaced as a whole. -/
  table_replace : ∀ s L, table (replace s L) = L
  /-- A step on the table, taken in the context, replaces it and nothing else. -/
  perform : ∀ (op : LockOp K) (Q : Unit → Shared → Prop) (s : Shared), context s →
    (∀ s₁, A.inv s₁ → A.frame t s s₁ → op.Pre (table s₁) t ∧
      (∀ k, op = .lockFor k → admissible k) ∧
      ∀ L, (table s₁).perform t op = some L → A.inv (replace s₁ L) → Q () (replace s₁ L)) →
    wp A P M t (embed op) Q s

section Rule

variable {A : Assertions Op Shared} {P : Policy Op Shared Choice Entry Move}
variable {M : Machine Op Res Out Shared Choice Entry Move} {t : ℕ} {table : Shared → LockTable K}
variable {replace : Shared → LockTable K → Shared} {admissible : K → Prop} {context : Shared → Prop}
variable {embed : LockOp K → Prog Op Res Unit}

/-- The task holds the key, as far as the others are concerned for good. -/
theorem stable_holds (access : LockAccess A P M t table replace admissible context embed) (k : K) :
    Stable A t fun s => (table s).Holds t k := by
  intro s s' _ hframe h
  exact (access.same s s' hframe).holds_iff.mpr h

/-- The task has no handle, as far as the others are concerned for good. -/
theorem stable_free (access : LockAccess A P M t table replace admissible context embed) :
    Stable A t fun s => (table s).handles.lookup t = none := by
  intro s s' _ hframe h
  rw [(access.same s s' hframe).handle]
  exact h

/-- The destructors of a section: afterwards the task has no handle. -/
theorem wp_unlock (access : LockAccess A P M t table replace admissible context embed) {β : Type}
    {rest : Prog Op Res β} {ψ : Shared → Prop} {Q : β → Shared → Prop} (hψ : Stable A t ψ)
    (hψtable : ∀ s L, ψ s → ψ (replace s L)) (hψcontext : ∀ s, ψ s → context s)
    (hrest : ∀ s, (table s).handles.lookup t = none → ψ s → wp A P M t rest Q s)
    {s : Shared} (hs : ψ s) :
    wp A P M t (do
      embed .release
      embed .dropBody
      embed .releaseArc
      rest) Q s := by
  rw [wp_bind]
  refine access.perform _ _ _ (hψcontext s hs) fun s₁ hinv₁ hframe₁ => ⟨trivial, nofun, ?_⟩
  intro L₁ hL₁ hinv₁'
  have hψ₁ := hψtable s₁ L₁ (hψ s s₁ hinv₁ hframe₁ hs)
  cases hL₁
  have hout₁ := (release_consistent (access.consistent s₁ hinv₁) t).2.1
  rw [wp_bind]
  refine access.perform _ _ _ (hψcontext _ hψ₁) fun s₂ hinv₂ hframe₂ => ?_
  have hout₂ : (table s₂).Outside t := by
    refine (access.same _ s₂ hframe₂).outside_iff.mpr ?_
    rw [access.table_replace]
    exact hout₁
  refine ⟨hout₂, nofun, fun L₂ hL₂ hinv₂' => ?_⟩
  have hψ₂ := hψtable s₂ L₂ (hψ _ s₂ hinv₂ hframe₂ hψ₁)
  cases hL₂
  have hout₃ := (dropBody_consistent (access.consistent s₂ hinv₂) hout₂).2
  rw [wp_bind]
  refine access.perform _ _ _ (hψcontext _ hψ₂) fun s₃ hinv₃ hframe₃ => ?_
  have hout₄ : (table s₃).Outside t := by
    refine (access.same _ s₃ hframe₃).outside_iff.mpr ?_
    rw [access.table_replace]
    exact hout₃
  refine ⟨hout₄, nofun, fun L₃ hL₃ hinv₃' => ?_⟩
  have hψ₃ := hψtable s₃ L₃ (hψ _ s₃ hinv₃ hframe₃ hψ₂)
  cases hL₃
  have hfree := (releaseArc_consistent (access.consistent s₃ hinv₃) hout₄).2.2
  refine hrest _ ?_ hψ₃
  rw [access.table_replace]
  exact hfree

/-- The rule for a critical section. -/
theorem wp_guarded (access : LockAccess A P M t table replace admissible context embed) {k : K}
    (hk : admissible k) {body : Prog Op Res α} {φ : Shared → Prop} {ψ : α → Shared → Prop}
    (hφ : Stable A t φ) (hψ : ∀ value, Stable A t (ψ value))
    (hφtable : ∀ s L, φ s → φ (replace s L)) (hψtable : ∀ value s L, ψ value s → ψ value (replace s L))
    (hφcontext : ∀ s, φ s → context s) (hψcontext : ∀ value s, ψ value s → context s)
    (hbody : ∀ s, A.inv s → (table s).Holds t k → φ s →
      wp A P M t body (fun value s' => (table s').Holds t k ∧ ψ value s') s)
    {s : Shared} (hfree : (table s).handles.lookup t = none) (hs : φ s) :
    wp A P M t (guarded embed k body)
      (fun value s' => (table s').handles.lookup t = none ∧ ψ value s') s := by
  unfold guarded
  rw [wp_bind]
  refine access.perform _ _ _ (hφcontext s hs) fun s₁ hinv₁ hframe₁ => ?_
  have hfree₁ := stable_free access s s₁ hinv₁ hframe₁ hfree
  refine ⟨hfree₁, fun k' hk' => LockOp.lockFor.inj hk' ▸ hk, fun L₁ hL₁ hinv₁' => ?_⟩
  have hφ₁ := hφtable s₁ L₁ (hφ s s₁ hinv₁ hframe₁ hs)
  cases hL₁
  obtain ⟨hhas, hout⟩ := lockFor_has (access.consistent s₁ hinv₁) hfree₁ k
  rw [wp_bind]
  refine access.perform _ _ _ (hφcontext _ hφ₁) fun s₂ hinv₂ hframe₂ => ?_
  have hhas₂ : (table s₂).Has t k := by
    refine (access.same _ s₂ hframe₂).has_iff.mpr ?_
    rw [access.table_replace]
    exact hhas
  have hout₂ : (table s₂).Outside t := by
    refine (access.same _ s₂ hframe₂).outside_iff.mpr ?_
    rw [access.table_replace]
    exact hout
  refine ⟨⟨⟨k, hhas₂⟩, hout₂⟩, nofun, fun L₂ hL₂ hinv₂' => ?_⟩
  have hφ₂ := hφtable s₂ L₂ (hφ _ s₂ hinv₂ hframe₂ hφ₁)
  have hholds : (table (replace s₂ L₂)).Holds t k := by
    rw [access.table_replace]
    exact (acquire_consistent (access.consistent s₂ hinv₂) hhas₂ hL₂).2
  rw [wp_bind]
  refine wp_mono (hbody _ hinv₂' hholds hφ₂) ?_
  intro value s₃ hs₃
  refine wp_unlock access (hψ value) (hψtable value) (hψcontext value) ?_ hs₃.2
  intro s₄ hfree hs₄
  exact (wp_done t _ _ s₄).mpr ⟨hfree, hs₄⟩

end Rule

end OpenTfMirror.LockSections
