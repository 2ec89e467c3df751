import OpenTfMirror.PathText
import OpenTfMirror.Storage

/-!
# Plain versions of the libraries

Small concrete stand-ins for the parameters, exact on the inputs that the
concrete runs use: release versions of three numbers, and SHA-256 on one short
message. With them a store and the actions of its tasks.
-/

namespace OpenTfMirror.PlainLibraries

open TextOps PathText PublicAddresses FileStore Outbound Provider Metadata Storage

/-- A number without leading zeros. -/
def plainNumber (cs : List Char) : Option ℕ :=
  if cs ≠ [] && cs.all Char.isDigit && (cs.length = 1 || cs.head? ≠ some '0') then
    some (cs.foldl (fun n c => 10 * n + (c.toNat - '0'.toNat)) 0)
  else none

/-- `major.minor.patch`. -/
def plainVersion (s : String) : Option (ℕ × ℕ × ℕ) :=
  match (s.toList.splitOn '.').map plainNumber with
  | [some major, some minor, some patch] => some (major, minor, patch)
  | _ => none

/-- Release versions and their precedence. -/
@[reducible] def plainSemver : SemverCrate where
  valid s := (plainVersion s).isSome
  compare a b :=
    match plainVersion a, plainVersion b with
    | some x, some y =>
      (compare x.1 y.1).then ((compare x.2.1 y.2.1).then (compare x.2.2 y.2.2))
    | _, _ => .eq

theorem plainNumber_digits {cs : List Char} {n : ℕ} (h : plainNumber cs = some n) :
    cs ≠ [] ∧ ∀ c ∈ cs, c.isDigit = true := by
  unfold plainNumber at h
  split at h
  · next hcs =>
      simp only [Bool.and_eq_true, decide_eq_true_eq, List.all_eq_true] at hcs
      exact hcs.1
  · cases h

/-- The plain versions have the grammar of semantic versions. -/
theorem plainSemver_grammar : @SemverGrammar plainSemver := by
  intro s hs
  change (plainVersion s).isSome = true at hs
  have hparts : ∀ l ∈ s.toList.splitOn '.', l ≠ [] ∧ ∀ c ∈ l, c.isDigit = true := by
    unfold plainVersion at hs
    split at hs
    · next major minor patch hsplit =>
        intro l hl
        have hmem := List.mem_map_of_mem (f := plainNumber) hl
        rw [hsplit] at hmem
        simp only [List.mem_cons, List.not_mem_nil, or_false] at hmem
        rcases hmem with h | h | h <;> exact plainNumber_digits h
    · cases hs
  constructor
  · cases hchars : s.toList with
    | nil =>
      rw [hchars] at hparts
      exact absurd rfl (hparts [] (by simp)).1
    | cons c rest =>
      refine ⟨c, rest, rfl, ?_⟩
      rw [hchars, List.splitOn_cons_eq_if_modifyHead] at hparts
      split at hparts
      · exact absurd rfl (hparts [] List.mem_cons_self).1
      · cases hsplit : rest.splitOn '.' with
        | nil => exact absurd hsplit (by simp)
        | cons first others =>
          rw [hsplit] at hparts
          exact (hparts (c :: first) List.mem_cons_self).2 c List.mem_cons_self
  · intro c hc
    rcases mem_splitAll '.' hc with hdot | ⟨part, hpart, hmem⟩
    · exact .inr (.inl hdot)
    · obtain ⟨l, hl, rfl⟩ := List.mem_map.mp hpart
      have hdigit := (hparts l hl).2 c (by simpa using hmem)
      exact .inl (by simp [Char.isAlphanum, hdigit])

/-- SHA-256 of the message `abc`. -/
@[reducible] def plainSha256 : Sha256Crate where
  digest bytes :=
    if bytes = [97, 98, 99] then
      [0xba, 0x78, 0x16, 0xbf, 0x8f, 0x01, 0xcf, 0xea, 0x41, 0x41, 0x40, 0xde, 0x5d, 0xae, 0x22,
        0x23, 0xb0, 0x03, 0x61, 0xa3, 0x96, 0x17, 0x7a, 0x9c, 0xb4, 0x10, 0xff, 0x61, 0xf2, 0x00,
        0x15, 0xad]
    else []

/-- A store that downloads directly. -/
def plainStore : ProviderStorage where
  root := ["data"]
  bundledMirror := none
  maxArchiveBytes := 1000
  outbound := ⟨.direct, ⟨some ⟨false⟩, false⟩, false, false⟩

def plainKey : ProviderArchiveKey where
  hostname := "registry.terraform.io"
  providerNamespace := "hashicorp"
  providerType := "null"
  filename := "terraform-provider-null_1.0.0_linux_amd64.zip"

def plainMetadata : PlatformMetadata where
  os := "linux"
  arch := "amd64"
  filename := plainKey.filename
  shasum := some "ba7816bf8f01cfea414140de5dae2223b00361a396177a9cb410ff61f20015ad"
  downloadUrl := "https://releases.example/null.zip"

/-- The message in two chunks, with this status. -/
def plainAnswers (status : ℕ) : ℕ → Answer PlainUrl := fun _ =>
  ⟨.ok [.v4 (Ipv4Addr.new 8 8 8 8)],
    .ok ⟨status, none, ⟨"https", "releases.example", "/null.zip"⟩, some 3, [.ok [97], .ok [98, 99]]⟩⟩

end OpenTfMirror.PlainLibraries
