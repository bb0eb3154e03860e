import FlowGraph.Proofs.Drawing
import FlowGraph.Tool.Directory

/-! Jobs at work in a directory: what one that succeeds has read, drawn and written. -/
namespace FlowGraph

/-- Runs passes one after the other. -/
def Pass.runAll (passes : List Pass) (m : Model) : Drawing Model :=
  passes.foldlM (fun m p => p.run m) m

namespace Tool

/-- A file that was written is there with its content. -/
theorem Directory.read?_write? {d d' : Directory} {path : String} {content : List UInt8}
    (h : d.write? path content = some d') : d'.read? path = some content := by
  simp only [write?, Option.bind_eq_bind, Option.bind_eq_some_iff] at h
  obtain ⟨names, hnames, h⟩ := h
  split at h
  case isTrue => cases h
  case isFalse =>
    obtain rfl := Option.some.inj h
    rw [read?, hnames]
    exact List.lookup_cons_self

namespace Job

variable {α β : Type} {codecs : Archive.Codecs}

/-- How a job ends in a world: with which result, which ids are left, and what has become of the
world. -/
def runIn (j : Job (StateM World) α) (s : Supply) (w : World) :
    Except Failure α × Supply × World :=
  let ((result, s), w) := StateT.run (StateT.run (ExceptT.run j) s) w
  (result, s, w)

variable {s s' : Supply} {w w' : World}

theorem runIn_bind_ok {j : Job (StateM World) α} {f : α → Job (StateM World) β} {b : β} :
    (j >>= f).runIn s w = (.ok b, s', w') ↔
      ∃ a s₁ w₁, j.runIn s w = (.ok a, s₁, w₁) ∧ (f a).runIn s₁ w₁ = (.ok b, s', w') := by
  have hbind : (j >>= f).runIn s w = match j.runIn s w with
      | (.ok a, s₁, w₁) => (f a).runIn s₁ w₁
      | (.error e, s₁, w₁) => (.error e, s₁, w₁) := by
    simp only [runIn, StateT.run, ExceptT.run, bind, ExceptT.bind, ExceptT.mk, StateT.bind]
    rcases j s w with ⟨⟨result, s₁⟩, w₁⟩
    cases result <;> rfl
  rw [hbind]
  rcases j.runIn s w with ⟨result, s₁, w₁⟩
  cases result with
  | error e => simp
  | ok a => simp

theorem runIn_pure_ok {a b : α} :
    (pure a : Job (StateM World) α).runIn s w = (.ok b, s', w') ↔ b = a ∧ s' = s ∧ w' = w := by
  change ((Except.ok a, s, w) : Except Failure α × Supply × World) = _ ↔ _
  simp only [Prod.mk.injEq, Except.ok.injEq, eq_comm]

theorem runIn_throw_ok {e : Failure} {b : α} :
    (throw e : Job (StateM World) α).runIn s w = (.ok b, s', w') ↔ False := by
  change ((Except.error e, s, w) : Except Failure α × Supply × World) = _ ↔ _
  simp

theorem runIn_check_ok {result : Except Failure α} {b : α} :
    (check result : Job (StateM World) α).runIn s w = (.ok b, s', w') ↔
      result = .ok b ∧ s' = s ∧ w' = w := by
  cases result with
  | ok a =>
    rw [Except.ok.injEq, eq_comm (a := a)]
    exact runIn_pure_ok
  | error e =>
    simp only [reduceCtorEq, false_and]
    exact runIn_throw_ok

theorem runIn_draw_ok {wrap : GraphError → Failure} {d : Drawing α} {b : α} :
    (draw wrap d : Job (StateM World) α).runIn s w = (.ok b, s', w') ↔
      d.runWith s = (.ok b, s') ∧ w' = w := by
  change (((d.runWith s).1.mapError wrap, (d.runWith s).2, w) :
    Except Failure α × Supply × World) = _ ↔ _
  rcases d.runWith s with ⟨result, s₁⟩
  cases result <;> simp [Except.mapError, eq_comm, and_assoc]

theorem runIn_read_ok {path : String} {content : Option (List UInt8)} :
    (host ((World.host codecs).read path)).runIn s w = (.ok content, s', w') ↔
      content = w.directory.read? path ∧ s' = s ∧ w' = w := by
  change ((Except.ok (w.directory.read? path), s, w) :
    Except Failure (Option (List UInt8)) × Supply × World) = _ ↔ _
  simp only [Prod.mk.injEq, Except.ok.injEq, eq_comm]

theorem run_write (path : String) (content : List UInt8) (w : World) :
    StateT.run ((World.host codecs).write path content) w =
      match w.directory.write? path content with
      | some d => (true, { w with directory := d })
      | none => (false, w) := by
  simp only [World.host, StateT.run, bind, StateT.bind]
  change (match w.directory.write? path content with
    | some d => _
    | none => _ : StateM World Bool) w = _
  cases w.directory.write? path content <;> rfl

theorem runIn_write_ok {path : String} {content : List UInt8} :
    (host ((World.host codecs).write path content)).runIn s w = (.ok true, s', w') ↔
      ∃ d, w.directory.write? path content = some d ∧ s' = s ∧ w' = { w with directory := d } := by
  change ((Except.ok (StateT.run ((World.host codecs).write path content) w).1, s,
    (StateT.run ((World.host codecs).write path content) w).2) :
      Except Failure Bool × Supply × World) = _ ↔ _
  rw [run_write]
  cases w.directory.write? path content <;> simp [eq_comm]

theorem runIn_printLine_ok {line : String} {u : Unit} :
    (printLine (World.host codecs) line).runIn s w = (.ok u, s', w') ↔
      s' = s ∧ w' = { w with printed := w.printed ++ (line ++ "\n") } := by
  change ((Except.ok (), s, { w with printed := w.printed ++ (line ++ "\n") }) :
    Except Failure Unit × Supply × World) = _ ↔ _
  simp only [Prod.mk.injEq, true_and, eq_comm]

theorem runIn_tell_ok {line : String} {u : Unit} :
    (tell (World.host codecs) line).runIn s w = (.ok u, s', w') ↔
      s' = s ∧ w' = { w with printed := w.printed ++ ("  " ++ line ++ "\n") } :=
  runIn_printLine_ok

end Job

open Job

variable {codecs : Archive.Codecs} {s s' : Supply} {w w' : World} {settings : Settings}
  {path : String} {m m' : Model}

theorem loadModel_ok :
    (loadModel (World.host codecs) settings path).runIn s w = (.ok m, s', w') ↔
      ∃ bytes, w.directory.read? path = some bytes ∧
        (Model.ofBytes codecs (settings.formatFor path) bytes).runWith s = (.ok m, s') ∧
          w' = w := by
  simp only [loadModel, runIn_bind_ok, runIn_read_ok]
  constructor
  · rintro ⟨content, _, _, ⟨hcontent, rfl, rfl⟩, hload⟩
    cases content with
    | none => exact (runIn_throw_ok.mp hload).elim
    | some bytes => exact ⟨bytes, hcontent.symm, runIn_draw_ok.mp hload⟩
  · rintro ⟨bytes, hbytes, hload⟩
    exact ⟨some bytes, s, w, ⟨hbytes.symm, rfl, rfl⟩, runIn_draw_ok.mpr hload⟩

/-- Saving a model writes its bytes into its file and nothing else, whether it is read back or
not. -/
theorem saveModel_ok {u : Unit}
    (h : (saveModel (World.host codecs) settings path m).runIn s w = (.ok u, s', w')) :
    ∃ bytes, m.toBytes codecs (settings.formatFor path) = .ok bytes ∧
      w.directory.write? path bytes = some w'.directory := by
  simp only [saveModel, runIn_bind_ok, runIn_check_ok] at h
  obtain ⟨bytes, _, _, ⟨hbytes, rfl, rfl⟩, written, s₁, w₁, hwrite, hrest⟩ := h
  refine ⟨bytes, mapError_ok.mp hbytes, ?_⟩
  cases written with
  | false =>
    obtain ⟨_, _, _, hthrow, -⟩ := runIn_bind_ok.mp hrest
    exact (runIn_throw_ok.mp hthrow).elim
  | true =>
    obtain ⟨d, hd, rfl, rfl⟩ := runIn_write_ok.mp hwrite
    -- reading the file back leaves it as it is
    have hkept : w'.directory = d := by
      rw [Bool.not_true, if_neg Bool.false_ne_true] at hrest
      split at hrest
      case isFalse =>
        obtain ⟨-, -, rfl⟩ := runIn_pure_ok.mp hrest
        rfl
      case isTrue =>
        obtain ⟨found, _, _, hload, hcheck⟩ := runIn_bind_ok.mp hrest
        obtain ⟨-, -, -, rfl⟩ := loadModel_ok.mp hload
        split at hcheck
        case isTrue => exact (runIn_throw_ok.mp hcheck).elim
        case isFalse =>
          obtain ⟨-, -, rfl⟩ := runIn_pure_ok.mp hcheck
          rfl
    rw [hkept]
    exact hd

/-- A model is saved wherever its file can be written, if its nodes are of the same types when they
are to be read back. -/
theorem saveModel_of {bytes : List UInt8} {d : Directory}
    (hbytes : m.toBytes codecs (settings.formatFor path) = .ok bytes)
    (hwrite : w.directory.write? path bytes = some d)
    (hback : settings.verifyRoundTrip = true → ∃ found s₁,
      (Model.ofBytes codecs (settings.formatFor path) bytes).runWith s = (.ok found, s₁) ∧
        found.typeNames = m.typeNames) :
    ∃ s', (saveModel (World.host codecs) settings path m).runIn s w =
      (.ok (), s', { w with directory := d }) := by
  have hwritten := (@runIn_write_ok codecs s s w _ path bytes).mpr ⟨d, hwrite, rfl, rfl⟩
  simp only [saveModel, runIn_bind_ok, runIn_check_ok]
  cases hverify : settings.verifyRoundTrip with
  | false =>
    refine ⟨s, bytes, s, w, ⟨mapError_ok.mpr hbytes, rfl, rfl⟩, true, s, _, hwritten, ?_⟩
    rw [Bool.not_true, if_neg Bool.false_ne_true, if_neg Bool.false_ne_true]
    exact runIn_pure_ok.mpr ⟨rfl, rfl, rfl⟩
  | true =>
    obtain ⟨found, s₁, hload, htypes⟩ := hback hverify
    refine ⟨s₁, bytes, s, w, ⟨mapError_ok.mpr hbytes, rfl, rfl⟩, true, s, _, hwritten, ?_⟩
    rw [Bool.not_true, if_neg Bool.false_ne_true, if_pos rfl]
    have hread := Directory.read?_write? hwrite
    refine runIn_bind_ok.mpr ⟨found, s₁, _, loadModel_ok.mpr ⟨_, hread, hload, rfl⟩, ?_⟩
    rw [if_neg (not_not.mpr htypes)]
    exact runIn_pure_ok.mpr ⟨rfl, rfl, rfl⟩

/-- Passes run one after the other, and write nothing. -/
theorem runPasses_ok {passes : List Pass}
    (h : (runPasses (World.host codecs) m passes).runIn s w = (.ok m', s', w')) :
    (Pass.runAll passes m).runWith s = (.ok m', s') ∧
      w'.directory = w.directory := by
  induction passes generalizing m s w with
  | nil =>
    obtain ⟨rfl, rfl, rfl⟩ := runIn_pure_ok.mp h
    exact ⟨Drawing.runWith_pure_ok.mpr ⟨rfl, rfl⟩, rfl⟩
  | cons p rest ih =>
    simp only [runPasses, runIn_bind_ok, runIn_draw_ok, runIn_tell_ok] at h
    obtain ⟨m₁, _, _, ⟨hpass, rfl⟩, _, _, _, ⟨rfl, rfl⟩, hrest⟩ := h
    obtain ⟨hfold, hdirectory⟩ := ih hrest
    refine ⟨?_, hdirectory⟩
    rw [Pass.runAll, List.foldlM_cons]
    exact Drawing.runWith_bind_ok.mpr ⟨m₁, _, hpass, hfold⟩

/-- They run as far as the passes by themselves do. -/
theorem runPasses_of {passes : List Pass} (h : (Pass.runAll passes m).runWith s = (.ok m', s')) :
    ∃ printed,
      (runPasses (World.host codecs) m passes).runIn s w = (.ok m', s', { w with printed }) := by
  induction passes generalizing m s w with
  | nil =>
    obtain ⟨rfl, rfl⟩ := Drawing.runWith_pure_ok.mp h
    exact ⟨w.printed, runIn_pure_ok.mpr ⟨rfl, rfl, rfl⟩⟩
  | cons p rest ih =>
    rw [Pass.runAll, List.foldlM_cons] at h
    obtain ⟨m₁, s₁, hpass, hfold⟩ := Drawing.runWith_bind_ok.mp h
    obtain ⟨printed, hrest⟩ := ih hfold
    refine ⟨printed, ?_⟩
    simp only [runPasses, runIn_bind_ok, runIn_draw_ok, runIn_tell_ok]
    exact ⟨m₁, s₁, w, ⟨hpass, rfl⟩, (), _, _, ⟨rfl, rfl⟩, hrest⟩

/-- A transform that succeeds has loaded a model, run the passes and saved what they gave. -/
theorem transform_ok {source output : String} {names : List String}
    (h : (transform (World.host codecs) settings source output names).runIn s w =
      (.ok (), s', w')) :
    ∃ passes given m₀ m s₁ s₂ bytes, settings.choosePasses names = .ok passes ∧
      w.directory.read? source = some given ∧
      (Model.ofBytes codecs (settings.formatFor source) given).runWith s = (.ok m₀, s₁) ∧
      (Pass.runAll passes m₀).runWith s₁ = (.ok m, s₂) ∧
      m.toBytes codecs (settings.formatFor output) = .ok bytes ∧
      w'.directory.read? output = some bytes := by
  simp only [transform, runIn_bind_ok, runIn_check_ok, loadModel_ok, runIn_tell_ok,
    runIn_printLine_ok] at h
  obtain ⟨passes, _, _, ⟨hpasses, rfl, rfl⟩, m₀, _, _, ⟨given, hgiven, hload, rfl⟩, -, _, _,
    ⟨rfl, rfl⟩, -, _, _, ⟨rfl, rfl⟩, -, _, _, ⟨rfl, rfl⟩, m, _, _, hrun, _, _, _, hsave, -, _, _,
    ⟨rfl, rfl⟩, rfl, rfl⟩ := h
  obtain ⟨bytes, hbytes, hwrite⟩ := saveModel_ok hsave
  exact ⟨passes, given, m₀, m, _, _, bytes, hpasses, hgiven, hload, (runPasses_ok hrun).1, hbytes,
    Directory.read?_write? hwrite⟩

/-- A transform succeeds if all of that does and nothing is to be read back. -/
theorem transform_of {source output : String} {names : List String} {passes : List Pass}
    {given bytes : List UInt8} {m₀ : Model} {s₁ s₂ : Supply} {d : Directory}
    (hpasses : settings.choosePasses names = .ok passes)
    (hgiven : w.directory.read? source = some given)
    (hload : (Model.ofBytes codecs (settings.formatFor source) given).runWith s = (.ok m₀, s₁))
    (hrun : (Pass.runAll passes m₀).runWith s₁ = (.ok m, s₂))
    (hbytes : m.toBytes codecs (settings.formatFor output) = .ok bytes)
    (hwrite : w.directory.write? output bytes = some d)
    (hverify : settings.verifyRoundTrip = false) :
    ∃ s' printed, (transform (World.host codecs) settings source output names).runIn s w =
      (.ok (), s', ⟨d, printed⟩) := by
  have hsave : ∀ printed, ∃ s', (saveModel (World.host codecs) settings output m).runIn s₂
      { w with printed } = (.ok (), s', ⟨d, printed⟩) := fun _ =>
    saveModel_of hbytes hwrite fun h => absurd (hverify.symm.trans h) Bool.false_ne_true
  have hpassed : ∀ printed, ∃ printed', (runPasses (World.host codecs) m₀ passes).runIn s₁
      { w with printed } = (.ok m, s₂, { w with printed := printed' }) := fun _ => runPasses_of hrun
  simp only [transform, runIn_bind_ok, runIn_check_ok, loadModel_ok, runIn_tell_ok,
    runIn_printLine_ok]
  exact ⟨_, _, passes, s, w, ⟨hpasses, rfl, rfl⟩, m₀, s₁, w, ⟨given, hgiven, hload, rfl⟩,
    (), _, _, ⟨rfl, rfl⟩, (), _, _, ⟨rfl, rfl⟩, (), _, _, ⟨rfl, rfl⟩, m, s₂, _,
    (hpassed _).choose_spec, (), _, _, (hsave _).choose_spec, (), _, _, ⟨rfl, rfl⟩, rfl, rfl⟩

/-- A conversion that succeeds has loaded a model and saved it. -/
theorem convert_ok {source output : String}
    (h : (convert (World.host codecs) settings source output).runIn s w = (.ok (), s', w')) :
    ∃ given m s₁ bytes, w.directory.read? source = some given ∧
      (Model.ofBytes codecs (settings.formatFor source) given).runWith s = (.ok m, s₁) ∧
      m.toBytes codecs (settings.formatFor output) = .ok bytes ∧
      w.directory.write? output bytes = some w'.directory := by
  simp only [convert, runIn_bind_ok, loadModel_ok, runIn_tell_ok] at h
  obtain ⟨m, s₁, _, ⟨given, hgiven, hload, rfl⟩, _, _, _, hsave, rfl, rfl⟩ := h
  obtain ⟨bytes, hbytes, hwrite⟩ := saveModel_ok hsave
  exact ⟨given, m, s₁, bytes, hgiven, hload, hbytes, hwrite⟩

/-- A conversion succeeds if the model is loaded and saved. -/
theorem convert_of {source output : String} {given : List UInt8} {s₁ : Supply} {d : Directory}
    (hgiven : w.directory.read? source = some given)
    (hload : (Model.ofBytes codecs (settings.formatFor source) given).runWith s = (.ok m, s₁))
    (hsave : ∃ s', (saveModel (World.host codecs) settings output m).runIn s₁ w =
      (.ok (), s', { w with directory := d })) :
    ∃ s' printed, (convert (World.host codecs) settings source output).runIn s w =
      (.ok (), s', ⟨d, printed⟩) := by
  obtain ⟨s', hsave⟩ := hsave
  simp only [convert, runIn_bind_ok, loadModel_ok, runIn_tell_ok]
  exact ⟨s', _, m, s₁, w, ⟨given, hgiven, hload, rfl⟩, (), s', _, hsave, rfl, rfl⟩

end Tool

end FlowGraph
