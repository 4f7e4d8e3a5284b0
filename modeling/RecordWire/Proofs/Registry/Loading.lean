import RecordWire.Proofs.Log.Ending
import RecordWire.Proofs.Registry.Reached

/-!
Errors of loading a directory. A schema that is no good is reported as such, and so is a directory
that does not exist; a schema file that is no text is not, nor is a struct that no type can be made of.
What is loaded are schemas that were read, registered as one batch.
-/

namespace RecordWire

/-- Below the directory that a path leads to there is a schema file that is no text. -/
def FileTree.HasNonText (files : FileTree) (path : Text) : Prop :=
  ∃ place, files.place path = .ok place ∧
    ∃ file ∈ files.filesBelow place Registry.fileEnding, file.2.fileText? = none

/-- Below the directory that a path leads to there is a file with a schema that has a struct of which no
type can be made. -/
def FileTree.HasRefused (files : FileTree) (path : Text) (why : Fault) : Prop :=
  ∃ place, files.place path = .ok place ∧
    ∃ file ∈ files.filesBelow place Registry.fileEnding, ∃ text m,
      file.2.fileText? = some text ∧ Schema.parse (Path.below path file.1) text = .ok m ∧
        ∃ d ∈ BatchStruct.ofModules [m], d.refusal? = some why

theorem BatchStruct.exists_module {modules : List SchemaModule} {d : BatchStruct}
    (hd : d ∈ ofModules modules) : ∃ m ∈ modules, d ∈ ofModules [m] := by
  obtain ⟨m, hm, hd⟩ := List.mem_flatMap.1 hd
  exact ⟨m, hm, List.mem_flatMap.2 ⟨m, List.mem_singleton_self m, hd⟩⟩

namespace Registry

open Logged BatchStruct

def IsSchemaOf (root : Text) (file : List Text × Bytes) (m : SchemaModule) : Prop :=
  ∃ text, file.2.fileText? = some text ∧ Schema.parse (Path.below root file.1) text = .ok m

theorem ends_parseContent (root : Text) (file : List Text × Bytes) :
    (parseContent (Path.below root file.1) file.2).Ends (IsSchemaOf root file)
      fun e => (∃ why, e = .schema why) ∨
        e = .fault .undecodable ∧ file.2.fileText? = none := by
  unfold parseContent
  split
  · rename_i ht
    exact ends_throw (.inr ⟨rfl, ht⟩)
  · rename_i text ht
    exact (ends_log _ _ _).bind fun _ _ _ =>
      ends_ofExcept_mapError (fun _ hm => ⟨text, ht, hm⟩) fun why _ => .inl ⟨why, rfl⟩

theorem ends_registerAll (r : Registry) (modules : List SchemaModule) :
    (r.registerAll modules).Ends (fun loaded => r.register modules = .ok loaded)
      fun e => (∃ why, e = .schema why) ∨
        ∃ d ∈ ofModules modules, ∃ why, d.refusal? = some why ∧ e = .fault why := by
  refine Ends.mapError ((ends_modify _).bind fun _ _ _ => ends_ofExcept (fun _ h => h) ?_)
  intro e he
  cases stops_of_register he with
  | schema why => exact .inl ⟨why, rfl⟩
  | fault hd hwhy => exact .inr ⟨_, hd, _, hwhy, rfl⟩

theorem ends_files (r : Registry) {root : Text} {found : List (List Text × Bytes)}
    {message : Registry × List RecordType → Text} {N : Prop} {C : Fault → Prop}
    (hn : ∀ file ∈ found, file.2.fileText? = none → N)
    (hc : ∀ file ∈ found, ∀ m, IsSchemaOf root file m → ∀ d ∈ ofModules [m], ∀ why,
      d.refusal? = some why → C why) :
    (do
      let modules ← found.mapM fun file => parseContent (Path.below root file.1) file.2
      let loaded ← r.registerAll modules
      Logged.log .info .schema (message loaded)
      pure (loaded.1, loaded.2) : Loading (Registry × List RecordType)).Ends
        (fun loaded => ∃ modules, (∀ m ∈ modules, IsRead m) ∧ r.register modules = .ok loaded)
        fun e => (∃ why, e = .schema why) ∨ e = .fault .undecodable ∧ N ∨
          ∃ why, e = .fault why ∧ C why := by
  refine (ends_mapM (Q := fun m => ∃ file ∈ found, IsSchemaOf root file m)
    fun file hfile => ?_).bind fun modules _ hread => ?_
  · refine (ends_parseContent root file).mono (fun m hm => ⟨file, hfile, hm⟩) fun e he => ?_
    exact he.imp_right fun ⟨hundecodable, ht⟩ => .inl ⟨hundecodable, hn file hfile ht⟩
  · refine ((r.ends_registerAll modules).mono (fun _ h => h) fun e he => ?_).bind
      fun loaded _ hregister => (ends_log _ _ _).bind fun _ _ _ => ?_
    · refine he.imp_right ?_
      rintro ⟨d, hd, why, hwhy, rfl⟩
      obtain ⟨m, hm, hd⟩ := exists_module hd
      obtain ⟨file, hfile, hschema⟩ := hread m hm
      exact .inr ⟨why, rfl, hc file hfile m hschema d hd why hwhy⟩
    · refine ends_pure ⟨modules, fun m hm => ?_, hregister⟩
      obtain ⟨file, -, text, -, hparse⟩ := hread m hm
      exact ⟨_, text, hparse⟩

/-- Loading a directory registers schemas that were read, or fails on a schema, on a file that is no text
or on a struct that no type can be made of. -/
theorem ends_loadDirectory (r : Registry) (files : FileTree) (path : Text) :
    (r.loadDirectory files path).Ends
      (fun loaded => ∃ modules, (∀ m ∈ modules, IsRead m) ∧ r.register modules = .ok loaded)
      fun e => (∃ why, e = .schema why) ∨
        e = .fault .undecodable ∧ files.HasNonText (Path.tidy path) ∨
        ∃ why, e = .fault why ∧ files.HasRefused (Path.tidy path) why := by
  unfold loadDirectory
  dsimp only
  split
  · exact ends_throw (.inl ⟨_, rfl⟩)
  · rename_i place hplace
    have hn : ∀ file ∈ files.filesBelow place fileEnding, file.2.fileText? = none →
        files.HasNonText (Path.tidy path) :=
      fun file hfile ht => ⟨place, hplace, file, hfile, ht⟩
    have hc : ∀ file ∈ files.filesBelow place fileEnding, ∀ m, IsSchemaOf (Path.tidy path) file m →
        ∀ d ∈ ofModules [m], ∀ why, d.refusal? = some why →
          files.HasRefused (Path.tidy path) why :=
      fun file hfile m ⟨text, ht, hm⟩ d hd why hwhy =>
        ⟨place, hplace, file, hfile, text, m, ht, hm, d, hd, hwhy⟩
    split
    · exact (ends_throw (Q := fun _ => False) (.inl ⟨_, rfl⟩)).bind fun _ _ hnever => hnever.elim
    · split
      · exact (ends_log _ _ _).bind fun _ _ _ => r.ends_files hn hc
      · exact r.ends_files hn hc

theorem reached_of_loadDirectory {origin : Nat} {files : FileTree} {path : Text} {r : Registry}
    {created : List RecordType}
    (h : (loadDirectory { origin } files path).Returns (r, created)) : r.Reached := by
  obtain ⟨modules, hread, hregister⟩ := (ends_loadDirectory _ files path).of_returns h
  have hreached := (reached_loads origin []).after hread
  rwa [List.foldl_nil, after_of_register_ok hregister] at hreached

end Registry

end RecordWire
