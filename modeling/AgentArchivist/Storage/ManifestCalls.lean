import AgentArchivist.Storage.Manifests

/-! # The calls of a manifest commit

A manifest commit writes its own bytes at its own key and nothing else; where it
succeeds the store has taken them, or said that an object is there already. -/
namespace AgentArchivist.Storage.ManifestCalls
open Lib.Proc Commit Manifests RawWrite

/-- A manifest that the calls placed, or found in its place. -/
def Placed (key : ManifestKey) (t : Trace Store) : Prop :=
  ∃ bytes, (∃ outcome, ⟨.writeManifest key bytes, Except.ok outcome⟩ ∈ t) ∨
    ∃ answer, ⟨.createManifestIfAbsent key bytes, Except.ok answer⟩ ∈ t

theorem Placed.mono {key t t'} (h : Placed key t) (hsub : t ⊆ t') : Placed key t' := by
  obtain ⟨bytes, ⟨outcome, hmem⟩ | ⟨answer, hmem⟩⟩ := h
  · exact ⟨bytes, .inl ⟨outcome, hsub hmem⟩⟩
  · exact ⟨bytes, .inr ⟨answer, hsub hmem⟩⟩

variable {allowed : Trace Store → Event Store → Prop} {pre : Trace Store → Call → Prop}
  {t : Trace Store}

/-- A manifest commit that succeeds has placed its object, or found it there. -/
theorem commitAtKey_safe {key bytes} (hcap : ∀ t, pre t .capabilities)
    (hwrite : ∀ t, pre t (.writeManifest key bytes))
    (hcreate : ∀ t, pre t (.createManifestIfAbsent key bytes)) :
    Safe allowed pre (fun r t' => ∀ commit, r = .ok commit → commit.key = key ∧ Placed key t')
      (commitAtKey key bytes) t := by
  have hcommit : Safe allowed pre (fun r t' => ∀ outcome, r = .ok outcome → Placed key t')
      (commitManifest key bytes) t := by
    refine Safe.call (hcap _) fun (support : ConditionalCreate) _ => ?_
    cases support with
    | supported =>
      show Safe allowed pre _ (commitByConditionalCreate key bytes) _
      unfold commitByConditionalCreate
      cases boundedManifestBytes bytes with
      | error error => exact nofun
      | ok _ =>
        refine Safe.call (hcap _) fun (support : ConditionalCreate) _ => ?_
        by_cases hsupport : support = .supported
        · rw [if_neg (not_not_intro hsupport)]
          refine Safe.call (hcreate _) fun r _ => ?_
          cases r with
          | error error => exact nofun
          | ok answer =>
            have hplaced : ∀ t, Placed key (t ++ [⟨.createManifestIfAbsent key bytes, Except.ok answer⟩]) :=
              fun t => ⟨bytes, .inr ⟨answer, by simp⟩⟩
            cases answer with
            | created => exact fun _ _ => hplaced _
            | alreadyExists existing =>
              dsimp only
              cases classifyExisting existing bytes with
              | equivalent | unproven => exact fun _ _ => hplaced _
              | contradicts => exact nofun
        · rw [if_pos hsupport]
          exact nofun
    | unavailable =>
      show Safe allowed pre _ (commitByDeterministicOverwrite key bytes) _
      unfold commitByDeterministicOverwrite putManifest
      cases boundedManifestBytes bytes with
      | error error => exact nofun
      | ok _ =>
        refine Safe.call (hwrite _) fun r _ => ?_
        cases r with
        | error error => exact nofun
        | ok outcome => exact fun _ _ => ⟨bytes, .inl ⟨outcome, by simp⟩⟩
  refine Safe.bind (hcommit.mono fun r t' hafter => ?_)
  cases r with
  | error error => exact nofun
  | ok outcome =>
    rintro _ ⟨⟩
    exact ⟨rfl, hafter outcome rfl⟩

/-! ## What would be written -/

/-- Some run of the program makes a call that writes the bytes at the key. -/
def Writes {α : Type} (p : StoreM α) (key : ManifestKey) (bytes : List UInt8) : Prop :=
  ∃ p' t, Steps (fun _ _ => True) p [] p' t ∧
    ((∃ reply, ⟨.writeManifest key bytes, reply⟩ ∈ t) ∨
      ∃ reply, ⟨.createManifestIfAbsent key bytes, reply⟩ ∈ t)

/-- A call that, if it writes, writes these bytes at this key. -/
def WritesOnly (key : ManifestKey) (bytes : List UInt8) (_ : Trace Store) : Call → Prop
  | .writeManifest key' bytes' => key' = key ∧ bytes' = bytes
  | .createManifestIfAbsent key' bytes' => key' = key ∧ bytes' = bytes
  | _ => True

theorem commitAtKey_writes {key key' bytes bytes'} (hbound : boundedManifestBytes bytes = .ok ()) :
    Writes (commitAtKey key bytes) key' bytes' ↔ key' = key ∧ bytes' = bytes := by
  constructor
  · rintro ⟨p', t, hsteps, hmem⟩
    have hsafe : Safe (fun _ _ => True) (WritesOnly key bytes) _ (commitAtKey key bytes) [] :=
      commitAtKey_safe (fun _ => trivial) (fun _ => ⟨rfl, rfl⟩) fun _ => ⟨rfl, rfl⟩
    rcases hmem with ⟨reply, hmem⟩ | ⟨reply, hmem⟩
    · obtain ⟨before, after, rfl⟩ := List.append_of_mem hmem
      exact hsafe.calls hsteps rfl (Nat.zero_le _)
    · obtain ⟨before, after, rfl⟩ := List.append_of_mem hmem
      exact hsafe.calls hsteps rfl (Nat.zero_le _)
  · rintro ⟨rfl, rfl⟩
    -- a store without conditional create is asked to write the manifest
    have hput : putManifest key' bytes' = writeManifest key' bytes' := by
      unfold putManifest
      rw [hbound]
    have hruns : Runs (fun _ _ => True) (commitManifest key' bytes') [] (.error emptyManifest)
        [⟨.capabilities, ConditionalCreate.unavailable⟩,
          ⟨.writeManifest key' bytes', Except.error emptyManifest⟩] := by
      refine Steps.call (r := ConditionalCreate.unavailable) trivial ?_
      change Steps _ (commitByDeterministicOverwrite key' bytes') _ _ _
      unfold commitByDeterministicOverwrite
      rw [hput]
      exact Steps.call (r := Except.error emptyManifest) trivial (.refl _ _)
    refine ⟨_, _, hruns.bind (.refl _ _), .inl ⟨Except.error emptyManifest, ?_⟩⟩
    exact List.mem_cons_of_mem _ (List.mem_singleton.mpr rfl)

end AgentArchivist.Storage.ManifestCalls
