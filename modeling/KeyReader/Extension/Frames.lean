import KeyReader.Extension.Changes

/-! The operations that leave the work of the host alone: the queue, the pending effects and the
history. -/

namespace KeyReader.Extension

open Checked

namespace ExtensionHost

variable {G : Type}

/-- The two hosts have the same work and the same counters of events. -/
structure Aside (host next : ExtensionHost G) : Prop where
  queue : next.queue = host.queue
  pending : next.pendingEffects = host.pendingEffects
  tick : next.tick = host.tick
  sequence : next.nextEventSequence = host.nextEventSequence
  history : next.history = host.history

namespace Aside

theorem refl (host : ExtensionHost G) : Aside host host := ⟨rfl, rfl, rfl, rfl, rfl⟩

variable {host next : ExtensionHost G}

theorem trans {middle : ExtensionHost G} (first : Aside host middle) (second : Aside middle next) :
    Aside host next :=
  ⟨second.queue.trans first.queue, second.pending.trans first.pending, second.tick.trans first.tick,
    second.sequence.trans first.sequence, second.history.trans first.history⟩

variable {extension : ExtensionId}

theorem transition {target : LifecycleState} (h : host.transition extension target = .ok next) :
    Aside host next := by
  obtain ⟨record, -, -, rfl⟩ := transition_eq_ok.mp h
  exact ⟨rfl, rfl, rfl, rfl, rfl⟩

theorem restoreExtensionSettings {settings : DataValue}
    (h : host.restoreExtensionSettings extension settings = .ok next) : Aside host next := by
  unfold ExtensionHost.restoreExtensionSettings at h
  obtain ⟨record, -, h⟩ := bind_eq_ok.mp h
  obtain ⟨settings, -, h⟩ := bind_eq_ok.mp h
  dsimp only at h
  split at h <;> exact Except.ok.inj h ▸ ⟨rfl, rfl, rfl, rfl, rfl⟩

theorem install [Platform] {manifest : ExtensionManifest} {metadata : PackageMetadata}
    (h : host.install manifest metadata = .ok next) : Aside host next := by
  unfold ExtensionHost.install at h
  obtain ⟨-, h⟩ := ensure_bind_eq_ok.mp h
  obtain ⟨-, h⟩ := ensure_bind_eq_ok.mp h
  obtain ⟨-, h⟩ := ensure_bind_eq_ok.mp h
  exact Except.ok.inj h ▸ ⟨rfl, rfl, rfl, rfl, rfl⟩

theorem replace [Platform] {manifest : ExtensionManifest} {metadata : PackageMetadata}
    (h : host.replace manifest metadata = .ok next) : Aside host next := by
  unfold ExtensionHost.replace at h
  obtain ⟨-, h⟩ := ensure_bind_eq_ok.mp h
  obtain ⟨-, h⟩ := ensure_bind_eq_ok.mp h
  exact Except.ok.inj h ▸ ⟨rfl, rfl, rfl, rfl, rfl⟩

section

variable (host : ExtensionHost G) (extension : ExtensionId)

theorem transitionOrIgnore (target : LifecycleState) :
    Aside host (host.transitionOrIgnore extension target) := by
  unfold ExtensionHost.transitionOrIgnore
  split
  · exact transition ‹_›
  · exact refl host

theorem closeRuntime : Aside host (host.closeRuntime extension) := by
  unfold ExtensionHost.closeRuntime
  split <;> exact ⟨rfl, rfl, rfl, rfl, rfl⟩

theorem restoreSettings
    (manifest : ExtensionManifest) : Aside host (host.restoreSettings extension manifest).2 := by
  unfold ExtensionHost.restoreSettings
  split
  · exact refl host
  · split <;> exact ⟨rfl, rfl, rfl, rfl, rfl⟩

end

end Aside

end ExtensionHost

end KeyReader.Extension
