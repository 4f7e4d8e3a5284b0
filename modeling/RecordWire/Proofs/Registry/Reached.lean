import RecordWire.Proofs.Registry.Run
import RecordWire.Proofs.Schema.Position
import RecordWire.Registry.Load

/-!
The registries that loading schemas leads to. However schemas are loaded, from texts, from files
or from directories, what is registered are batches of schemas that were read; a load that fails
leaves the registry as it was.
-/

namespace RecordWire

namespace Logged

variable {ε ε' α β : Type} {entries entries' : List LogEntry}

theorem exists_of_bind {x : Logged ε α} {f : α → Logged ε β} {b : β}
    (h : (x >>= f) entries = .ok b entries') :
    ∃ a mid, x entries = .ok a mid ∧ f a mid = .ok b entries' := by
  change EStateM.bind x f entries = _ at h
  unfold EStateM.bind at h
  split at h
  · rename_i a mid hx
    exact ⟨a, mid, hx, h⟩
  · cases h

theorem ok_of_ofExcept {r : Except ε α} {a : α} (h : ofExcept r entries = .ok a entries') :
    r = .ok a := by
  cases r with
  | ok a' => cases h; rfl
  | error e => cases h

theorem ok_of_mapError {f : ε → ε'} {x : Logged ε α} {a : α}
    (h : mapError f x entries = .ok a entries') : x entries = .ok a entries' := by
  unfold mapError at h
  split at h
  · rename_i hx
    cases h
    exact hx
  · cases h

theorem ok_of_outcome {x : Logged ε α} {a : α} (h : x.outcome.2 = .ok a) :
    ∃ entries, x [] = .ok a entries := by
  unfold outcome at h
  split at h
  · rename_i a' entries hx
    cases h
    exact ⟨entries, hx⟩
  · cases h

theorem exists_of_mapM {f : α → Logged ε β} {xs : List α} {ys : List β}
    (h : xs.mapM f entries = .ok ys entries') {y : β} (hy : y ∈ ys) :
    ∃ x ∈ xs, ∃ s s', f x s = .ok y s' := by
  induction xs generalizing entries ys with
  | nil =>
    cases h
    cases hy
  | cons x xs ih =>
    rw [List.mapM_cons] at h
    obtain ⟨z, mid, hz, h⟩ := exists_of_bind h
    obtain ⟨zs, mid', hzs, h⟩ := exists_of_bind h
    cases h
    rcases List.mem_cons.1 hy with rfl | hy
    · exact ⟨x, by simp, _, _, hz⟩
    · obtain ⟨x', hx', hrest⟩ := ih hzs hy
      exact ⟨x', by simp [hx'], hrest⟩

end Logged

namespace Schema

theorem sound_of_parse {source text : Text} {m : SchemaModule} (h : parse source text = .ok m) :
    m.Sound text.lines := by
  unfold parse at h
  have hrun : (∃ final, State.start.run source 1 text.lines = .ok final ∧ final.Sound text.lines) ∨
      ∃ e, State.start.run source 1 text.lines = .error e ∧ e.IsPlacedIn text.lines :=
    State.run_sound source .start (Nat.le_refl 1) rfl
  rcases hrun with ⟨final, hfinal, hsound⟩ | ⟨e, he, -⟩
  · rw [hfinal] at h
    cases hsound with
    | outside hv hp hn hs =>
      cases h
      exact ⟨hv, hp, hn, hs⟩
    | start | versioned | inside => cases h
  · rw [he] at h
    cases h

end Schema

namespace Registry

open BatchStruct

/-- A way to load schemas. -/
inductive Load
  | text (source content : Text)
  | texts (schemas : List (Text × Text))
  | file (files : FileTree) (path : Text)
  | directory (files : FileTree) (path : Text)

def Load.run (r : Registry) : Load → Loading (Registry × List RecordType)
  | text source content => r.addSchema source content
  | texts schemas => r.addSchemas schemas
  | file files path => r.loadFile files path
  | directory files path => r.loadDirectory files path

/-- The registry after a load. One that fails registers nothing. -/
def afterLoad (r : Registry) (load : Load) : Registry :=
  match (load.run r).outcome.2 with
  | .ok (r', _) => r'
  | .error _ => r

/-- A schema that was read. -/
def IsRead (m : SchemaModule) : Prop := ∃ source text, Schema.parse source text = .ok m

section

variable {r r' : Registry} {created : List RecordType} {entries entries' : List LogEntry}

theorem register_of_registerAll {modules : List SchemaModule}
    (h : r.registerAll modules entries = .ok (r', created) entries') :
    r.register modules = .ok (r', created) := by
  obtain ⟨-, mid, -, h⟩ := Logged.exists_of_bind (Logged.ok_of_mapError h)
  exact Logged.ok_of_ofExcept h

theorem isRead_of_mapError {source content : Text} {f : SchemaError → Failure} {m : SchemaModule}
    (h : (Schema.parse source content).mapError f = .ok m) : IsRead m := by
  cases hp : Schema.parse source content with
  | error e =>
    rw [hp] at h
    cases h
  | ok m' =>
    rw [hp] at h
    cases h
    exact ⟨source, content, hp⟩

theorem isRead_of_parseContent {path : Text} {content : Bytes} {m : SchemaModule}
    (h : parseContent path content entries = .ok m entries') : IsRead m := by
  cases hc : content.fileText? with
  | none =>
    rw [parseContent, hc] at h
    cases h
  | some text =>
    rw [parseContent, hc] at h
    obtain ⟨-, mid, -, h⟩ := Logged.exists_of_bind h
    exact isRead_of_mapError (Logged.ok_of_ofExcept h)

theorem isRead_of_parseFile {files : FileTree} {path : Text} {m : SchemaModule}
    (h : parseFile files path entries = .ok m entries') : IsRead m := by
  obtain ⟨-, mid, -, h⟩ := Logged.exists_of_bind h
  cases hc : files.read path with
  | error e =>
    rw [hc] at h
    cases h
  | ok content =>
    rw [hc] at h
    exact isRead_of_parseContent h

theorem exists_register_of_files {root : Text} {found : List (List Text × Bytes)}
    {message : Registry × List RecordType → Text}
    (h : (do
      let modules ← found.mapM fun file => parseContent (Path.below root file.1) file.2
      let loaded ← r.registerAll modules
      Logged.log .info .schema (message loaded)
      pure (loaded.1, loaded.2) : Loading (Registry × List RecordType)) entries =
        .ok (r', created) entries') :
    ∃ modules, (∀ m ∈ modules, IsRead m) ∧ r.register modules = .ok (r', created) := by
  obtain ⟨modules, mid, hm, h⟩ := Logged.exists_of_bind h
  obtain ⟨loaded, mid', hloaded, h⟩ := Logged.exists_of_bind h
  obtain ⟨-, mid'', -, h⟩ := Logged.exists_of_bind h
  cases h
  refine ⟨modules, fun m hmem => ?_, register_of_registerAll hloaded⟩
  obtain ⟨file, -, s, s', hread⟩ := Logged.exists_of_mapM hm hmem
  exact isRead_of_parseContent hread

theorem Load.exists_register {load : Load} (h : load.run r entries = .ok (r', created) entries') :
    ∃ modules, (∀ m ∈ modules, IsRead m) ∧ r.register modules = .ok (r', created) := by
  cases load with
  | text source content =>
    obtain ⟨m, mid, hm, h⟩ := Logged.exists_of_bind h
    have hread := isRead_of_mapError (Logged.ok_of_ofExcept hm)
    exact ⟨[m], List.forall_mem_singleton.2 hread, register_of_registerAll h⟩
  | texts schemas =>
    obtain ⟨modules, mid, hm, h⟩ := Logged.exists_of_bind h
    refine ⟨modules, fun m hmem => ?_, register_of_registerAll h⟩
    obtain ⟨schema, -, hread⟩ := mem_of_collect (Logged.ok_of_ofExcept hm) hmem
    exact isRead_of_mapError hread
  | file files path =>
    obtain ⟨m, mid, hm, h⟩ := Logged.exists_of_bind h
    exact ⟨[m], List.forall_mem_singleton.2 (isRead_of_parseFile hm), register_of_registerAll h⟩
  | directory files path =>
    rw [run] at h
    unfold loadDirectory at h
    cases hp : files.place (Path.tidy path) with
    | error e =>
      simp only [hp] at h
      cases h
    | ok place =>
      simp only [hp] at h
      split at h
      · cases h
      · split at h
        · obtain ⟨-, mid, -, h⟩ := Logged.exists_of_bind h
          exact exists_register_of_files h
        · exact exists_register_of_files h

theorem exists_after_of_load (r : Registry) (load : Load) :
    ∃ modules, (∀ m ∈ modules, IsRead m) ∧
      (r.afterLoad load = r.after modules ∨ r.afterLoad load = r) := by
  unfold afterLoad
  split
  · rename_i r' created h
    obtain ⟨entries, h⟩ := Logged.ok_of_outcome h
    obtain ⟨modules, hread, hreg⟩ := Load.exists_register h
    exact ⟨modules, hread, .inl (after_of_register_ok hreg).symm⟩
  · exact ⟨[], List.forall_mem_nil _, .inr rfl⟩

theorem outcome_registerAll (r : Registry) (modules : List SchemaModule) :
    (r.registerAll modules).outcome.2 = (r.register modules).mapError Failure.ofRegistry := by
  rw [registerAll, registerLogged]
  cases r.register modules <;> rfl

theorem afterLoad_text_of_parse (r : Registry) {source content : Text} {m : SchemaModule}
    (h : Schema.parse source content = .ok m) :
    r.afterLoad (.text source content) = r.after [m] := by
  have hrun : (Load.run r (.text source content)).outcome = (r.registerAll [m]).outcome := by
    rw [Load.run, addSchema, h]
    rfl
  rw [afterLoad, hrun, outcome_registerAll]
  cases hreg : r.register [m] with
  | ok result => exact (after_of_register_ok hreg).symm
  | error e => exact (after_of_register_error hreg).symm

/-- Loading a text registers the types that its structs are built to, in the order that they have. -/
theorem afterLoad_text_of_build {r : Registry} {source content : Text} {m : SchemaModule}
    {declared : List BatchStruct} {order : List Text} {built : TypeTable}
    (hparse : Schema.parse source content = .ok m)
    (hbatch : ofBatch r.isRegistered [m] = .ok declared)
    (horder : buildOrder r.isRegistered declared = .ok order)
    (hbuilt : buildAll r.origin r.types declared [] order = ⟨built, none⟩) :
    r.afterLoad (.text source content) =
      { r with types := r.types ++ built, modules := r.modules ++ [m] } := by
  have hbuild : r.build [m] = ⟨built, none⟩ := by
    rw [Registry.build, hbatch]
    dsimp only
    rw [horder]
    exact hbuilt
  have hreg : r.register [m] = .ok ({ r with
      types := r.types ++ built, modules := r.modules ++ [m] }, built.map (·.2)) := by
    rw [register_eq, hbuild]
  rw [afterLoad_text_of_parse r hparse, after_of_register_ok hreg]

/-- What any loads keep of a registry: its types were built in an order, from schemas that were
read. -/
structure Reached (r : Registry) : Prop extends r.Grounded where
  read : ∀ m ∈ r.modules, IsRead m

theorem Reached.after {modules : List SchemaModule} (hr : r.Reached)
    (hm : ∀ m ∈ modules, IsRead m) : (r.after modules).Reached := by
  refine ⟨hr.toGrounded.after modules, ?_⟩
  cases hreg : r.register modules with
  | ok result =>
    rw [after_of_register_ok hreg, (hr.toGrounded.register hreg).2.modules]
    exact List.forall_mem_append.2 ⟨hr.read, hm⟩
  | error e =>
    rw [after_of_register_error hreg]
    exact hr.read

theorem Reached.afterLoad (hr : r.Reached) (load : Load) : (r.afterLoad load).Reached := by
  obtain ⟨modules, hread, h | h⟩ := r.exists_after_of_load load
  · rw [h]
    exact hr.after hread
  · rwa [h]

theorem reached_loads (origin : Nat) (loads : List Load) :
    (loads.foldl Registry.afterLoad { origin }).Reached := by
  have hrun : ∀ r : Registry, r.Reached → (loads.foldl Registry.afterLoad r).Reached := by
    induction loads with
    | nil => exact fun r hr => hr
    | cons load loads ih => exact fun r hr => ih _ (hr.afterLoad load)
  exact hrun _ ⟨⟨.nil, List.Perm.nil⟩, List.forall_mem_nil _⟩

theorem exists_sound_of_isRead {modules : List SchemaModule} (hread : ∀ m ∈ modules, IsRead m)
    {d : BatchStruct} (hd : d ∈ ofModules modules) :
    d.module ∈ modules ∧ ∃ lines, d.module.Sound lines ∧ d.struct.Sound lines := by
  obtain ⟨m, hm, hd⟩ := List.mem_flatMap.1 hd
  obtain ⟨s, hs, rfl⟩ := List.mem_map.1 hd
  obtain ⟨source, text, hparse⟩ := hread m hm
  have hsound := Schema.sound_of_parse hparse
  exact ⟨hm, text.lines, hsound, hsound.structs s hs⟩

theorem Reached.exists_sound (hr : r.Reached) {d : BatchStruct} (hd : d ∈ ofModules r.modules) :
    ∃ lines, d.module.Sound lines ∧ d.struct.Sound lines :=
  (exists_sound_of_isRead hr.read hd).2

theorem Reached.nodup_fields (hr : r.Reached) {d : BatchStruct} (hd : d ∈ ofModules r.modules) :
    (d.struct.fields.map (·.name)).Nodup := by
  obtain ⟨lines, -, hs⟩ := hr.exists_sound hd
  exact hs.nodup

end

end Registry

end RecordWire
