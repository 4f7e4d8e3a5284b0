import RecordWire.Proofs.CommandLine.Accepted
import RecordWire.Proofs.Config.Failing
import RecordWire.Proofs.Registry.Loading
import RecordWire.Proofs.Registry.Usable
import RecordWire.Proofs.Service.Failing

/-!
How runs of the tool fail. What is wrong with schemas, settings, documents, records and files is told,
and the exit code is one then; nothing was put out or saved. What is not told comes from two dashes in
the place of a value, from a path that no file can have, from bytes that are no text, from a struct that
no type can be made of, or from settings and values on which an operation fails by itself.
-/

namespace RecordWire.CommandLine

open Logged

/-- The failure is told, with the exit code one. -/
def IsTold (e : Failure) : Prop := ∃ message, failureText? e = some message

theorem isTold_of_report {e : Failure} {c : ErrorClass} {message : Text} {hasCause : Bool}
    {details : Details} (h : e.report = .own c message hasCause details) : IsTold e := by
  unfold IsTold failureText?
  split
  · exact ⟨_, rfl⟩
  · exact ⟨_, rfl⟩
  · rw [h]
    exact ⟨_, rfl⟩

theorem isTold_of_isReported {e : WireError} (h : e.IsReported) : IsTold (.wire e) := by
  obtain ⟨c, message, hasCause, details, h⟩ := h
  exact isTold_of_report (e := .wire e) h

theorem isTold_of_isRefusal {e : ConfigError} (h : e.IsRefusal) : IsTold (.config e) := by
  obtain ⟨hfault, hshow⟩ := h
  have hreport : Report.ofConfig e =
      .own .configuration (e.message?.getD []) e.hasCause .none := by
    unfold Report.ofConfig
    split
    · exact (hfault _ rfl).elim
    · rw [if_pos hshow]
  exact isTold_of_report (e := .config e) hreport

theorem isTold_schema (e : SchemaError) : IsTold (.schema e) :=
  isTold_of_report (e := .schema e) rfl

theorem isTold_file (e : FileError) : IsTold (.file e) := ⟨_, rfl⟩

theorem isTold_noDocument : IsTold .noDocument := ⟨_, rfl⟩

theorem isTold_unknownType (name : Text) (known : List Text) : IsTold (.unknownType name known) :=
  isTold_of_report (e := .unknownType name known) rfl

/-- Why a place cannot be opened whatever files there are. -/
inductive Place.Unopened : Place → Failure → Prop
  /-- Two dashes in the place of a name. -/
  | nameless : Unopened .nameless (.fault .unsupported)
  /-- A path that cannot be encoded. -/
  | unencodable {path : Text} (h : Encoding.utf8.encode path = none) :
    Unopened (.file path) (.fault .unencodable)
  /-- A path with a NUL. -/
  | null {path : Text} {bs : Bytes} (h : Encoding.utf8.encode path = some bs)
    (hz : bs.contains 0 = true) : Unopened (.file path) (.fault .badText)

def Command.target? : Command → Option Target
  | types _ => none
  | encode target _ _ | decode target _ => some target

def Command.places : Command → List Place
  | types _ => []
  | encode _ input output => [input, output]
  | decode _ input => [input]

section

variable (d : Documents) (s : Surroundings) (i : Invocation)

def Configures (config : ConfigOf TextCodec) : Prop :=
  ∃ settings, (loadSettings d s i.config?).Returns settings ∧
    settings.checkBy (TextCodec.ofValue d.encodings) = .ok config

/-- A run has a configuration and the record type that it asks for. -/
structure Has (config : ConfigOf TextCodec) (type : RecordType) : Prop where
  configured : Configures d s i config
  found : ∃ r created name,
    (Registry.loadDirectory { origin := 0 } s.files i.command.schemas).Returns (r, created) ∧
      (i.command.target?.bind (·.type?)) = some name ∧ r.find? name = some type

/-- Why a run fails without its being told. -/
inductive Escapes : Failure → Prop
  /-- Two dashes in the place of a level. -/
  | level (h : i.level? = none) : Escapes (.config (.logLevel (.list [])))
  /-- A configuration file that is no text, or settings on which an operation fails. -/
  | config {path : Text} {content : Bytes} {e : ConfigError} (hp : i.config? = some path)
    (hr : s.files.read path = .ok content) (h : Settings.Unread d.load content e) :
    Escapes (.config e)
  /-- A schema file that is no text. -/
  | schema (h : s.files.HasNonText (Path.tidy i.command.schemas)) : Escapes (.fault .undecodable)
  /-- A struct in a schema file that no type can be made of. -/
  | struct {why : Fault} (h : s.files.HasRefused (Path.tidy i.command.schemas) why) :
    Escapes (.fault why)
  /-- Two dashes in the place of a type. -/
  | type {target : Target} (ht : i.command.target? = some target) (h : target.type? = none) :
    Escapes (.fault .unsupported)
  /-- A place that cannot be opened. -/
  | place {place : Place} {e : Failure} (hp : place ∈ i.command.places) (h : place.Unopened e) :
    Escapes e
  /-- An input that is no text, or in which the reader of documents fails. -/
  | document {target : Target} {input output : Place} {content : Bytes} {why : Fault}
    (hi : i.command = .encode target input output) (hr : (readBytes s input).Returns content)
    (h : content.Unread d.load why) : Escapes (.fault why)
  /-- Data of a document on which an operation fails. -/
  | data {target : Target} {input output : Place} {config : ConfigOf TextCodec} {type : RecordType}
    {document : Value} {e : WireError} (hi : i.command = .encode target input output)
    (hh : Has d s i config type) (hr : (readDocument d s input).Returns document)
    (h : type.Unmade (if document.truth then document else .dict []) e) : Escapes (.wire e)
  /-- A record on which an operation of writing fails. -/
  | record {target : Target} {input output : Place} {config : ConfigOf TextCodec} {type : RecordType}
    {document record : Value} {e : WireError} (hi : i.command = .encode target input output)
    (hh : Has d s i config type) (hr : (readDocument d s input).Returns document)
    (hm : type.fromDict (if document.truth then document else .dict []) = .ok record)
    (h : type.Unwritten config record e) : Escapes (.wire e)
  /-- Bytes on which an operation of reading fails. -/
  | payload {target : Target} {input : Place} {config : ConfigOf TextCodec} {type : RecordType}
    {content : Bytes} {e : WireError} (hi : i.command = .decode target input)
    (hh : Has d s i config type) (hr : (readBytes s input).Returns content)
    (h : type.Unread config content e) : Escapes (.wire e)
  /-- A printed document that cannot be encoded. -/
  | printed {target : Target} {input : Place} {plain : Value} {t : Text}
    (hi : i.command = .decode target input) (hp : d.print plain = some t)
    (h : Encoding.utf8.encode t = none) : Escapes (.fault .unencodable)

end

variable {d : Documents} {s : Surroundings} {i : Invocation}

theorem ends_loadSettings (d : Documents) (s : Surroundings) (i : Invocation) :
    (loadSettings d s i.config?).Ends
      (fun settings => ∃ config, settings.checkBy (TextCodec.ofValue d.encodings) = .ok config)
      fun e => IsTold e ∨ Escapes d s i e := by
  have hfind : ∃ encoding : TextCodec, ((Encoding.ofName? "utf-8").map Encoding.codec).or
      (d.encodings "utf-8") = some encoding := ⟨_, rfl⟩
  cases hc : i.config? with
  | none => exact ends_pure ⟨_, rfl⟩
  | some path =>
    refine Ends.mapError
      ((Settings.ends_ofFileBy hfind s.files path d.load).mono (fun _ h => h) ?_)
    rintro e (href | ⟨content, hread, hunread⟩)
    · exact .inl (isTold_of_isRefusal href)
    · exact .inr (.config hc hread hunread)

theorem ends_findType (r : Registry) (type? : Option Text) :
    (findType r type?).Ends (fun t => type? = some t.1 ∧ r.find? t.1 = some t.2)
      fun e => IsTold e ∨ type? = none ∧ e = .fault .unsupported := by
  cases type? with
  | none => exact ends_throw (.inr ⟨rfl, rfl⟩)
  | some name =>
    unfold findType
    dsimp only
    split
    · rename_i type htype
      exact ends_pure ⟨rfl, htype⟩
    · exact ends_throw (.inl (isTold_unknownType _ _))

theorem ends_checkPath (path : Text) : (ofExcept (Failure.checkPath path)).Ends (fun _ => True)
    fun e => IsTold e ∨ (Place.file path).Unopened e := by
  unfold Failure.checkPath
  split
  · rename_i hnone
    exact ends_throw (.inr (.unencodable hnone))
  · rename_i bs hbs
    split
    · rename_i hz
      exact ends_throw (.inr (.null hbs hz))
    · exact ends_pure trivial

theorem ends_readBytes (s : Surroundings) (place : Place) :
    (readBytes s place).Ends (fun _ => True) fun e => IsTold e ∨ place.Unopened e := by
  cases place with
  | standard => exact ends_pure trivial
  | nameless => exact ends_throw (.inr .nameless)
  | file path =>
    refine (ends_checkPath path).bind fun _ _ _ =>
      ends_ofExcept_mapError (fun _ _ => trivial) fun e _ => .inl (isTold_file e)

theorem ends_readDocument (d : Documents) (s : Surroundings) (place : Place) :
    (readDocument d s place).Ends (fun _ => True) fun e => IsTold e ∨ place.Unopened e ∨
      ∃ content why, (readBytes s place).Returns content ∧ content.Unread d.load why ∧
        e = .fault why := by
  refine ((ends_readBytes s place).mono (fun _ h => h) fun e he => he.imp_right .inl).bind
    fun content hcontent _ => ?_
  have hunread : ∀ why, content.Unread d.load why → IsTold (.fault why) ∨
      place.Unopened (.fault why) ∨ ∃ content why', (readBytes s place).Returns content ∧
        content.Unread d.load why' ∧ Failure.fault why = .fault why' :=
    fun why h => .inr (.inr ⟨content, why, hcontent, h, rfl⟩)
  split
  · rename_i ht
    exact ends_throw (hunread _ (.undecodable ht))
  · rename_i t ht
    split
    · exact ends_throw (.inl isTold_noDocument)
    · rename_i hv
      exact ends_throw (hunread _ (.noValue ht hv))
    · rename_i hv
      exact ends_throw (hunread _ (.tooLarge ht hv))
    · exact ends_pure trivial

namespace Running

variable {α β : Type} {F : Failure → Prop}

/-- The errors of the run have a property, and nothing was produced before one of them. -/
def Fails (x : Running α) (F : Failure → Prop) : Prop :=
  ∀ p, match x p with
    | .ok _ _ => True
    | .error e p' => F e ∧ p'.output = p.output ∧ p'.saved? = p.saved?

theorem fails_modify (f : Progress → Progress) : (modify f : Running Unit).Fails F := fun _ => trivial

theorem Fails.mono {x : Running α} {G : Failure → Prop} (h : x.Fails F) (hG : ∀ e, F e → G e) :
    x.Fails G := by
  intro p
  have hfails := h p
  cases ha : x p with
  | ok a p' => trivial
  | error e p' =>
    rw [ha] at hfails
    exact ⟨hG e hfails.1, hfails.2⟩

theorem fails_throw {e : Failure} (h : F e) : (throw e : Running α).Fails F := fun _ => ⟨h, rfl, rfl⟩

theorem fails_logged_bind {x : Logged Failure α} {f : α → Running β} {Q : α → Prop}
    (hx : x.Ends Q F) (hf : ∀ a, x.Returns a → Q a → (f a).Fails F) : (logged x >>= f).Fails F := by
  intro p
  have hend := hx p.entries
  change match EStateM.bind (logged x) f p with
    | .ok _ _ => True
    | .error e p' => F e ∧ p'.output = p.output ∧ p'.saved? = p.saved?
  unfold EStateM.bind logged
  cases ha : x p.entries with
  | ok a entries =>
    rw [ha] at hend
    exact hf a ⟨_, _, ha⟩ hend { p with entries }
  | error e entries =>
    rw [ha] at hend
    exact ⟨hend, rfl, rfl⟩

theorem Fails.bind_log {x : Running α} (h : x.Fails F) (severity : Severity)
    (component : Component) (text : Text) :
    (x >>= fun _ => logged (Logged.log severity component text)).Fails F := by
  intro p
  have hfails := h p
  simp only [bind, EStateM.bind]
  cases ha : x p with
  | ok a p' => trivial
  | error e p' =>
    rw [ha] at hfails
    exact hfails

end Running

open Running

theorem fails_save (s : Surroundings) (content : Bytes) (place : Place) :
    (save s content place).Fails fun e => IsTold e ∨ place.Unopened e := by
  cases place with
  | standard => exact fails_modify _
  | nameless => exact fails_throw (.inr .nameless)
  | file path =>
    refine fails_logged_bind (ends_checkPath path) fun _ _ _ => ?_
    split
    · exact fails_throw (.inl (isTold_file _))
    · exact fails_modify _

section

variable {target : Target} {input output : Place} {config : ConfigOf TextCodec} {r : Registry}
  {created : List RecordType}

theorem ends_findType_target (hc : Configures d s i config)
    (hr : (Registry.loadDirectory { origin := 0 } s.files i.command.schemas).Returns (r, created))
    (ht : i.command.target? = some target) :
    (findType r target.type?).Ends
      (fun t => (Layout.record t.2).Schematic ∧ Has d s i config t.2)
      fun e => IsTold e ∨ Escapes d s i e := by
  refine (ends_findType r target.type?).mono ?_ fun e he => ?_
  · rintro ⟨name, type⟩ ⟨hn, hfind⟩
    refine ⟨(Registry.reached_of_loadDirectory hr).schematic hfind, hc, r, created, name, hr, ?_,
      hfind⟩
    rw [ht, Option.bind_some, hn]
  · exact he.imp_right fun ⟨hnone, h⟩ => h ▸ .type ht hnone

theorem ends_encodeDocument (hc : Configures d s i config)
    (hr : (Registry.loadDirectory { origin := 0 } s.files i.command.schemas).Returns (r, created))
    (hi : i.command = .encode target input output) :
    (encodeDocument d s config r target.type? input).Ends (fun _ => True)
      fun e => IsTold e ∨ Escapes d s i e := by
  have htarget : i.command.target? = some target := by rw [hi]; rfl
  have hinput : input ∈ i.command.places := by simp [hi, Command.places]
  refine (ends_findType_target hc hr htarget).bind fun ⟨name, type⟩ _ ⟨hs, hhas⟩ => ?_
  refine ((ends_readDocument d s input).mono (fun _ h => h) fun e he => ?_).bind
    fun document hdocument _ => ?_
  · refine he.imp_right ?_
    rintro (hplace | ⟨content, why, hcontent, hunread, rfl⟩)
    · exact .place hinput hplace
    · exact .document hi hcontent hunread
  refine (ends_ofExcept_mapError (fun _ h => h) fun e he => ?_).bind fun record _ hrecord => ?_
  · exact (RecordLayout.error_of_fromDict_schematic hs he).imp isTold_of_isReported
      (.data hi hhas hdocument)
  refine (Ends.mapError ((Service.ends_serialize hs hrecord).mono (fun _ h => h) fun e he => ?_)).bind
    fun content _ _ => ?_
  · exact he.imp isTold_of_isReported (.record hi hhas hdocument hrecord)
  exact ends_pure trivial

theorem ends_decodeBytes (hc : Configures d s i config)
    (hr : (Registry.loadDirectory { origin := 0 } s.files i.command.schemas).Returns (r, created))
    (hi : i.command = .decode target input) :
    (decodeBytes d s config r target.type? input).Ends (fun _ => True)
      fun e => IsTold e ∨ Escapes d s i e := by
  have htarget : i.command.target? = some target := by rw [hi]; rfl
  have hinput : input ∈ i.command.places := by simp [hi, Command.places]
  refine (ends_findType_target hc hr htarget).bind fun ⟨name, type⟩ _ ⟨hs, hhas⟩ => ?_
  refine ((ends_readBytes s input).mono (fun _ h => h) fun e he => ?_).bind
    fun content hcontent _ => ?_
  · exact he.imp_right (.place hinput)
  refine (Ends.mapError ((Service.ends_deserialize hs content).mono (fun _ h => h) fun e he => ?_)).bind
    fun record _ ⟨hdecoded, hnew⟩ => ?_
  · exact he.imp isTold_of_isReported (.payload hi hhas hcontent)
  obtain ⟨plain, hplain⟩ :=
    hdecoded.exists_toPlain (hdecoded.showsToDict hnew (hs.shows [.toDict] (by decide)))
  rw [hplain]
  refine (ends_pure (Q := fun v => v = plain) rfl).bind fun _ _ hv => ?_
  subst hv
  split
  · exact ends_throw (.inl isTold_noDocument)
  · rename_i t ht
    split
    · rename_i hnone
      exact ends_throw (.inr (.printed hi ht hnone))
    · exact ends_pure trivial

end

theorem ends_prepare (d : Documents) (s : Surroundings) (i : Invocation) :
    (prepare d s i).Ends (fun prepared => Configures d s i prepared.1 ∧
      ∃ created, (Registry.loadDirectory { origin := 0 } s.files i.command.schemas).Returns
        (prepared.2, created)) fun e => IsTold e ∨ Escapes d s i e := by
  refine (ends_loadSettings d s i).bind fun settings hsettings ⟨config, hconfig⟩ => ?_
  rw [hconfig]
  refine (ends_pure (Q := fun c => c = config) rfl).bind fun _ _ hc => ?_
  subst hc
  refine ((Registry.ends_loadDirectory _ s.files i.command.schemas).mono (fun _ h => h)
    fun e he => ?_).bind fun ⟨r, created⟩ hr _ => ?_
  · rcases he with ⟨why, rfl⟩ | ⟨rfl, hfile⟩ | ⟨why, rfl, hrefused⟩
    · exact .inl (isTold_schema why)
    · exact .inr (.schema hfile)
    · exact .inr (.struct hrefused)
  exact ends_pure ⟨⟨settings, hsettings, hconfig⟩, created, hr⟩

theorem fails_run (d : Documents) (s : Surroundings) (i : Invocation) :
    (run d s i).Fails fun e => IsTold e ∨ Escapes d s i e := by
  refine fails_logged_bind (ends_prepare d s i) fun prepared _ hprepared => ?_
  obtain ⟨config, r⟩ := prepared
  obtain ⟨hconfigured, created, hr⟩ := hprepared
  dsimp only
  split
  · exact fails_modify _
  · rename_i target input output hi
    have houtput : output ∈ i.command.places := by simp [hi, Command.places]
    refine fails_logged_bind (ends_encodeDocument hconfigured hr hi) fun encoded _ _ => ?_
    obtain ⟨type, content⟩ := encoded
    refine Fails.bind_log ?_ _ _ _
    exact (fails_save s content output).mono fun e he => he.imp_right (.place houtput)
  · rename_i target input hi
    exact fails_logged_bind (ends_decodeBytes hconfigured hr hi) fun _ _ _ => fails_modify _

/-- A run of accepted arguments ends with zero or with one, whatever the files and the input are, and has
put out and saved nothing if it ends with one; or else it fails for one of the causes that are not told.
-/
theorem outcome_code (args : List Text) (i : Invocation) (s : Surroundings) (d : Documents)
    (h : Invocation.ofArguments args = .ok i) :
    (∃ o, outcome s i d = .ok o ∧ (o.code = 0 ∨ o.code = 1 ∧ o.output = [] ∧ o.saved? = none)) ∨
    ∃ e, outcome s i d = .error e ∧ Escapes d s i e := by
  by_cases hl : i.level? = none
  · have hlevel : logLevel i = .error (.logLevel (.list [])) := by
      rw [logLevel, hl]
      rfl
    exact .inr ⟨_, by rw [outcome, hlevel], .level hl⟩
  · obtain ⟨level, hlevel⟩ := exists_logLevel h hl
    rw [outcome, hlevel]
    dsimp only
    have hfails := fails_run d s i {}
    cases hrun : run d s i {} with
    | ok _ p => exact .inl ⟨_, rfl, .inl rfl⟩
    | error e p =>
      rw [hrun] at hfails
      obtain ⟨hcause, houtput, hsaved⟩ := hfails
      dsimp only
      cases htext : failureText? e with
      | some message => exact .inl ⟨_, rfl, .inr ⟨rfl, houtput, hsaved⟩⟩
      | none =>
        refine .inr ⟨e, rfl, hcause.resolve_left ?_⟩
        rintro ⟨message, hmessage⟩
        cases htext.symm.trans hmessage

namespace Sample

def encodeArgs : List Text := ["--log-level", "info", "encode", "s", "p.R", "in", "-o", "out"]

def encodeInvocation : Invocation :=
  ⟨none, some "INFO", .encode ⟨"s", some "p.R"⟩ (.file "in") (.file "out")⟩

def noSchemas : Surroundings := ⟨{ files := [([Text.ofString "out"], [7])] }, []⟩

def typesInvocation : Invocation := ⟨none, some "WARNING", .types "s"⟩

def nonText : Surroundings := ⟨{ files := [([Text.ofString "s", Text.ofString "k.sme"], [0xFF])] }, []⟩

theorem filesBelow_nonText :
    nonText.files.filesBelow [Text.ofString "s"] Registry.fileEnding =
      [([Text.ofString "k.sme"], [0xFF])] := by
  change List.mergeSort [([Text.ofString "k.sme"], [0xFF])] _ = _
  exact List.mergeSort_singleton _

theorem loadDirectory_nonText :
    Registry.loadDirectory { origin := 0 } nonText.files "s" [] = .error (.fault .undecodable) [] := by
  have hplace : nonText.files.place (Path.tidy "s") = .ok [Text.ofString "s"] := rfl
  have hnode : nonText.files.node? [Text.ofString "s"] = some .directory := rfl
  simp only [Registry.loadDirectory, hplace, hnode, filesBelow_nonText]
  rfl

end Sample

open Sample

/-- Schemas that do not exist are told, and the file for the output stays as it was. -/
theorem outcome_code_missing :
    Invocation.ofArguments encodeArgs = .ok encodeInvocation ∧
    ∃ o, outcome noSchemas encodeInvocation = .ok o ∧ o.code = 1 ∧ o.output = [] ∧
      o.saved? = none := by
  have hargs : Invocation.ofArguments encodeArgs = .ok encodeInvocation := rfl
  refine ⟨hargs, ?_⟩
  rcases outcome_code encodeArgs encodeInvocation noSchemas {} hargs with
    ⟨o, ho, hcode | hcode⟩ | ⟨e, he, -⟩
  · cases ho
    cases hcode
  · exact ⟨o, ho, hcode⟩
  · cases he

/-- A schema file that is no text is not told. -/
theorem outcome_code_non_text :
    Invocation.ofArguments ["types", "s"] = .ok typesInvocation ∧
      outcome nonText typesInvocation = .error (.fault .undecodable) := by
  have hprepare : prepare {} nonText typesInvocation [] = .error (.fault .undecodable) [] := by
    change EStateM.bind (Registry.loadDirectory { origin := 0 } nonText.files "s") _ [] = _
    rw [EStateM.bind, loadDirectory_nonText]
  have hrun : run {} nonText typesInvocation {} = .error (.fault .undecodable) {} := by
    change EStateM.bind (logged (prepare {} nonText typesInvocation)) _ {} = _
    rw [EStateM.bind, logged, hprepare]
  have hlevel : logLevel typesInvocation = .ok 30 := rfl
  refine ⟨rfl, ?_⟩
  simp only [outcome, hlevel, hrun]
  rfl

end RecordWire.CommandLine
