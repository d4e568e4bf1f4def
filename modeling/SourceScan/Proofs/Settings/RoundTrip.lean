import SourceScan.Proofs.Disk.Written
import SourceScan.Proofs.Json.Ascii
import SourceScan.Proofs.Settings.Typed

/-!
# Settings saved and loaded again

Settings of the declared types come back from the file that they are saved to.  In YAML a key of
the host excludes is in the way if it stands on the line of its value with so many escapes that
the reader does not look for its end.
-/

namespace SourceScan

namespace Disk

variable {d written : Disk} {p : Path} {content : Bytes}

theorem stat_writeFile (hp : p.names ≠ []) (hwrite : d.writeFile p content = .ok written) :
    written.stat p = .ok (.file content) ∨ written.stat p = .ok .pipe := by
  obtain ⟨made, found, hmade, -, hsame, hat⟩ := sameBut_writeFile hp hwrite
  have hagain := hsame.findFrom_ok hmade
  rw [stat, FileTree.find, hagain]
  rcases hat with hall | ⟨hpipe, -⟩
  · exact .inl (by rw [hall made (sameFile_self d made)]; rfl)
  · exact .inr (by rw [hpipe]; rfl)

end Disk

namespace Settings

open Value (keyFits)

variable {s : Settings} {path : Path} {d d' : Disk} {form : FileForm} {t : Text}

def textIn (s : Settings) : FileForm → Except SaveError Text
  | .yaml => s.toYaml
  | .json => s.toJson

/-- Wherever the settings are saved at the path, it is the text that is written there. -/
def Saves (s : Settings) (path : Path) (text : Text) : Prop :=
  ∀ d : Disk, s.save path d = (d.makeDirs path.parent).mapError SaveError.disk >>= fun d =>
    (d.writeFile path (Utf8.encode text)).mapError SaveError.disk

def KeysFound (form : FileForm) (s : Settings) : Prop :=
  form = .yaml → ∀ k ∈ s.scanner.hostExcludes.keys, keyFits false (.str k) = true

theorem saves_of_textIn (hform : FileForm.ofPath? path = some form) (ht : s.textIn form = .ok t) :
    s.Saves path t := by
  intro d
  rw [save, hform]
  cases form with
  | yaml =>
      rw [textIn] at ht
      simp only [ht]
      rfl
  | json =>
      rw [textIn] at ht
      simp only [ht]
      rfl

theorem names_ne_nil (hform : FileForm.ofPath? path = some form) : path.names ≠ [] := by
  intro hnames
  have hsuffix : path.suffix = [] := by
    rw [Path.suffix, Path.name, hnames]
    rfl
  rw [FileForm.ofPath?, hsuffix] at hform
  cases hform

/-! ## The text is read -/

theorem Typed.keysFit (h : s.Typed) : (Value.map s.entries).keysFit false = true ↔
    ∀ k ∈ s.scanner.hostExcludes.keys, keyFits false (.str k) = true := by
  have htable : (keyNames.all fun k => Yaml.canBeSingleQuoted false k) = true := by cbv
  rw [Value.keysFit_iff _ h.simple]
  constructor
  · exact fun hall k hk => hall k (h.mem_keys.mpr (.inr hk))
  · intro hall k hk
    rcases h.mem_keys.mp hk with hk | hk
    · exact Value.keyFits_of_canBeSingleQuoted (List.all_eq_true.mp htable k hk)
    · exact hall k hk

theorem Typed.parse_yaml (h : s.Typed) (path : Path) : ∃ t, s.toYaml = .ok t ∧ Portable t ∧
    parse path .yaml t = if (Value.map s.entries).keysFit false then .ok (.map s.entries)
      else .error (.yaml path .malformed) := by
  have hne : s.entries ≠ [] := List.cons_ne_nil _ _
  have hdepth : 2 * Value.depthEntries s.entries < Yaml.Pen.width := by
    have hle := h.depth_le
    simp only [Yaml.Pen.width]
    omega
  obtain ⟨w, toks, hwrite, -, hclean⟩ := Value.write_eq false hne h.simple.2 hdepth
  have hread := Value.read_write false hne h.simple hdepth
    fun k _ => Value.readBack_narrow k
  rw [Value.readBackEntries_eq_self Value.readBack_narrow] at hread
  rw [hwrite] at hread
  refine ⟨w ++ ['\n'], ?_, ?_, ?_⟩
  · rw [toYaml, toValue_eq, Value.ofValue_eq _ h.simple, ← hwrite]
    rfl
  · have hportable : Portable w := fun ch hch =>
      ⟨(hclean ch hch).narrow rfl, (hclean ch hch).not_return⟩
    simpa [IsPortable] using hportable
  · rw [parse, hread, Value.keysFit]
    cases Value.keysFitEntries false s.entries <;> rfl

theorem Typed.parse_json (h : s.Typed) (path : Path) : ∃ t, s.toJson = .ok t ∧ Portable t ∧
    parse path .json t = .ok (.map s.entries) := by
  obtain ⟨t, hwrite, hread⟩ := Json.read_write h.simple
  refine ⟨t, ?_, Json.portable_write h.simple hwrite, ?_⟩
  · rw [toJson, toValue_eq, hwrite]
    rfl
  · have hstrip : (Text.strip t).isEmpty = false := by
      obtain ⟨rest, rfl⟩ := Json.write_map hwrite
      exact isEmpty_strip (by decide)
    rw [parse, hstrip, hread]
    rfl

theorem Typed.parse_textIn (h : s.Typed) (path : Path) (form : FileForm) :
    ∃ t, s.textIn form = .ok t ∧ Portable t ∧
      (KeysFound form s → parse path form t = .ok (.map s.entries)) ∧
      (¬KeysFound form s → parse path form t = .error (.yaml path .malformed)) := by
  cases form with
  | json =>
      obtain ⟨t, ht, hportable, hparse⟩ := h.parse_json path
      exact ⟨t, ht, hportable, fun _ => hparse, fun hnot => absurd nofun hnot⟩
  | yaml =>
      obtain ⟨t, ht, hportable, hparse⟩ := h.parse_yaml path
      have hfound : KeysFound .yaml s ↔ (Value.map s.entries).keysFit false = true := by
        rw [h.keysFit, KeysFound]
        exact forall_prop_of_true rfl
      refine ⟨t, ht, hportable, fun hkeys => ?_, fun hkeys => ?_⟩
      · rw [hparse, if_pos (hfound.mp hkeys)]
      · rw [hparse, if_neg (mt hfound.mpr hkeys)]

/-! ## The file is loaded -/

theorem ofFile_eq (hform : FileForm.ofPath? path = some form) (ht : Portable t)
    (hfault : path.fault? = none) (hrefused : d.refused? .read path = none)
    (hstat : d.stat path = .ok (.file (Utf8.encode t))) :
    ofFile d path = parse path form t >>= fun
      | .map entries => (ofEntries entries).mapError LoadError.section
      | _ => .error (.notMapping path) := by
  have hexists : d.exists? path = .ok true := by
    obtain ⟨place, hreach⟩ := Disk.reaches_of_stat hstat
    rw [Disk.exists?, Disk.ask_eq_look (by simp [hfault]), hreach.look]
    rfl
  have hread : d.readFile path = .ok (Utf8.encode t) := by rw [Disk.readFile, hrefused, hstat]
  rw [ofFile, hexists, hread]
  simp only [Except.mapError, Utf8.decode_encode ht, hform, universalNewlines_eq ht, bind,
    Except.bind]
  rfl

/-- Settings of the declared types are saved as a text.  Loaded from there they are the same
settings, and what is saved again is the same text, if and only if all keys are found; otherwise
the file is refused. -/
theorem ofFile_save (h : s.Typed) (hform : FileForm.ofPath? path = some form) :
    ∃ text, s.Saves path text ∧ ∀ d d' : Disk, s.save path d = .ok d' →
      d'.refused? .read path = none → d'.stat path ≠ .ok .pipe →
      (KeysFound form s → ∃ s', ofFile d' path = .ok s' ∧ s' = s ∧ s'.Saves path text) ∧
      (¬KeysFound form s → ofFile d' path = .error (.yaml path .malformed)) := by
  obtain ⟨text, htext, hportable, hparse, hfault⟩ := h.parse_textIn path form
  have hsaves := saves_of_textIn hform htext
  refine ⟨text, hsaves, fun d d' hsave hrefused hpipe => ?_⟩
  rw [hsaves d] at hsave
  obtain ⟨made, -, hsave⟩ := ok_of_bind hsave
  have hwrite := ok_of_mapError hsave
  have hstat := (Disk.stat_writeFile (names_ne_nil hform) hwrite).resolve_right hpipe
  have hload := ofFile_eq hform hportable (Disk.fault?_of_writeFile hwrite) hrefused hstat
  refine ⟨fun hkeys => ⟨s, ?_, rfl, hsaves⟩, fun hkeys => ?_⟩
  · rw [hload, hparse hkeys]
    change (ofEntries s.entries).mapError LoadError.section = .ok s
    rw [ofEntries_entries]
    rfl
  · rw [hload, hfault hkeys]
    rfl

/-- A pattern short enough for the line of its value, of which each character takes ten marks. -/
def smiles : Text := List.replicate 103 '😀'

theorem not_keysFound_smiles : ¬KeysFound .yaml (excluding [(smiles, true)]) := by
  intro hfound
  have hfits := hfound rfl smiles List.mem_cons_self
  have hkey : (Yaml.Form.str smiles).isSimpleKey = true := by cbv
  have hspecial : Yaml.canBeSingleQuoted false smiles = false := by cbv
  have hlength : (Yaml.Pen.escaped false smiles).length = 1030 := by
    have hten : (Yaml.Pen.inDouble false '😀').length = 10 := by decide
    rw [Yaml.Pen.escaped, smiles, List.length_flatMap, List.map_replicate, hten]
    rfl
  rw [Value.keyFits_of_special hkey hspecial, hlength] at hfits
  revert hfits
  decide

def outFile : Path := ⟨1, [RawText.ofText ("out.yaml" : Text)]⟩

def bareDisk : Disk := ⟨.dir [], [], [], []⟩

def bareDiskWith (content : Bytes) : Disk :=
  ⟨.dir [(RawText.ofText ("out.yaml" : Text), .file content)], [], [], []⟩

theorem writeFile_bareDisk (content : Bytes) :
    bareDisk.writeFile outFile content = .ok (bareDiskWith content) := by
  cbv

theorem stat_bareDiskWith (content : Bytes) :
    (bareDiskWith content).stat outFile = .ok (.file content) := by cbv

theorem ofFile_save_smiles :
    (excluding [(smiles, true)]).Typed ∧ FileForm.ofPath? outFile = some .yaml ∧
      ∃ d', (excluding [(smiles, true)]).save outFile bareDisk = .ok d' ∧
        d'.refused? .read outFile = none ∧ d'.stat outFile ≠ .ok .pipe ∧
        ofFile d' outFile = .error (.yaml outFile .malformed) := by
  have htyped : (excluding [(smiles, true)]).Typed := typed_excluding (by simp)
  have hform : FileForm.ofPath? outFile = some .yaml := by cbv
  obtain ⟨text, hsaves, hload⟩ := ofFile_save htyped hform
  have hdirs : bareDisk.makeDirs outFile.parent = .ok bareDisk := by cbv
  have hsave : (excluding [(smiles, true)]).save outFile bareDisk =
      .ok (bareDiskWith (Utf8.encode text)) := by
    rw [hsaves, hdirs]
    change (bareDisk.writeFile outFile (Utf8.encode text)).mapError SaveError.disk = _
    rw [writeFile_bareDisk]
    rfl
  have hstat : (bareDiskWith (Utf8.encode text)).stat outFile ≠ .ok .pipe := by
    rw [stat_bareDiskWith]
    intro hpipe
    cases hpipe
  exact ⟨htyped, hform, _, hsave, rfl, hstat,
    (hload _ _ hsave rfl hstat).2 not_keysFound_smiles⟩

end Settings

end SourceScan
