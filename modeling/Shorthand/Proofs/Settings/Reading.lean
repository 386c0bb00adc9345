import Shorthand.Settings.Reader

/-! # Settings of a written text

The bytes of a text are read as that text.  Settings that say nothing are those of an empty text.
-/
namespace Shorthand.Settings

theorem fromUTF8?_toUTF8 (text : String) : String.fromUTF8? text.toUTF8 = some text := by
  unfold String.fromUTF8?
  rw [String.toUTF8_eq_toByteArray, dif_pos text.isValidUTF8]
  rfl

theorem ofBytes_toUTF8 (text : String) : ofBytes text.toUTF8 = ofText text := by
  rw [ofBytes, fromUTF8?_toUTF8]

def isSilent (settings : Settings) : Bool :=
  settings.defaultTag.isNone && settings.indent.isNone && settings.maxNodes.isNone &&
    settings.maxDepth.isNone && settings.closing.isNone && settings.implicitTags.isEmpty

theorem eq_of_isSilent {settings : Settings} (silent : settings.isSilent = true) :
    settings = {} := by
  obtain ⟨defaultTag, indent, maxNodes, maxDepth, closing, ⟨entries, sorted⟩⟩ := settings
  simp only [isSilent, ImplicitTags.isEmpty, Bool.and_eq_true, Option.isNone_iff_eq_none,
    List.isEmpty_iff] at silent
  obtain ⟨⟨⟨⟨⟨rfl, rfl⟩, rfl⟩, rfl⟩, rfl⟩, rfl⟩ := silent
  rfl

theorem ofText_of_isSilent {text : String}
    (silent : ((Toml.read text).bind ofEntries?).map isSilent = some true) :
    ofText text = .ok {} := by
  obtain ⟨settings, read, silent⟩ := Option.map_eq_some_iff.1 silent
  rw [ofText, read, eq_of_isSilent silent]

end Shorthand.Settings
