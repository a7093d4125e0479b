import QUniLator.Web.ConfigDocument

namespace QUniLator.Web.Configs

/-- A configuration file: a document, or something that does not parse -/
inductive File
  | good (doc : Document)
  | broken (parseError : Text)
  deriving DecidableEq

structure Store where
  files : AList fun _ : Text => File
  current : Text
  deriving DecidableEq

/-- What becomes of a request's work on the file system: one of its operations fails, with what is left of the
file for the parser, or the process ends after so many of them. -/
inductive Fate
  | done
  | noOpen (why : Text)
  | noWrite (why left : Text)
  | noRename (why : Text)
  | crash (operations : Nat)
  deriving DecidableEq

inductive Reply
  | ok
  | refused (status : Nat) (error : Text)
  | crashed
  deriving DecidableEq

def validConfigName (name : Text) : Bool :=
  name≠[] && name.length≤64 &&
    name.all (fun c => c.isAlphanum || c = '-' || c = '_' || c = '.' || c = ' ') && name.head? ≠ some '.'

def quoted (name : Text) : Text := '"' :: name++['"']

inductive Request
  | put (name : Text) (body : Option Document) (fromLive : Bool)
  | importDocument (name : Text) (body : Option Document)
  | title (name : Text) (value : Field Text)
  | dip (name : Text) (body : Option (Field ℚ))
  | autostart (name : Text) (body : Option (Field Bool))
  | layout (name : Text) (body : Option (Field Text))
  | image (name devname : Text) (value : Field Text)
  | rename (source : Text) (target : Field Text)
  | delete (name : Text)
  | save (name : Text) (snapshot : List Entry)
  | apply (name : Text)
  deriving DecidableEq

namespace Store

def empty : Store := ⟨∅,[]⟩

section
variable (s : Store)

/-- `read_config` -/
def doc? (name : Text) : Option Document :=
  match s.files.lookup name with
  | some (.good doc) => some doc
  | _ => none

def readError (name : Text) : Text :=
  match s.files.lookup name with
  | some (.broken parseError) => "unreadable configuration ".toList++quoted name ++ ": ".toList++parseError
  | _ => "unknown configuration ".toList++quoted name

/-- What is left when the process ends: the files. What the next start makes current is its own affair. -/
def down : Store := { s with current := [] }

def setCurrent (name : Text) : Store := { s with current := name }

def store (name : Text) (file : File) : Store := { s with files := s.files.insert name file }

/-- `write_config_file`: the document goes to a temporary that is renamed once it is whole. -/
def writeConfigFile (name : Text) (doc : Document) : Fate → Store × Reply
  | .done => (s.store name (.good doc),.ok)
  | .noOpen why => (s,.refused 500 ("cannot write configuration ".toList++quoted name ++ ": ".toList++why))
  | .noWrite why _ => (s,.refused 500 ("cannot write configuration ".toList++quoted name ++ ": ".toList++why))
  | .noRename why => (s,.refused 500 ("cannot write configuration ".toList++quoted name ++ ": ".toList++why))
  | .crash n => if n<3 then (s.down,.crashed) else ((s.store name (.good doc)).down,.crashed)

/-- A file that is opened, which empties it, and then written: nobody asks how that went. -/
def overwriteFile (name : Text) (doc : Document) : Fate → Store × Reply
  | .noOpen _ => (s,.refused 500 ("cannot write configuration ".toList++quoted name))
  | .noWrite _ left => (s.store name (.broken left),.ok)
  | .crash 0 => (s.down,.crashed)
  | .crash 1 => ((s.store name (.broken "syntax error at line 1 near: ".toList)).down,.crashed)
  | .crash _ => ((s.store name (.good doc)).down,.crashed)
  | _ => (s.store name (.good doc),.ok)

def alter (target : Store) (refusal : Reply) : Fate → Store × Reply
  | .done => (target,.ok)
  | .crash 0 => (s.down,.crashed)
  | .crash _ => (target.down,.crashed)
  | _ => (s,refusal)

def onOk (f : Store → Store) : Store × Reply → Store × Reply
  | (t,.ok) => (f t,.ok)
  | out => out

def kept {α : Type} : Field α → Option (Field α) → Field α
  | .absent,some (.value a) => .value a
  | field,_ => field

def preserveMetadata (name : Text) (doc : Document) : Document :=
  { doc with
    title := kept doc.title ((s.doc? name).map Document.title)
    dipValue := kept doc.dipValue ((s.doc? name).map Document.dipValue)
    layout := kept doc.layout ((s.doc? name).map Document.layout)
    autostart := kept doc.autostart ((s.doc? name).map Document.autostart) }

def File.binds (file : File) (dip : Int) : Bool :=
  match file with
  | .good doc => doc.configDipValue=dip
  | .broken _ => false

/-- The configuration that a switch setting selects, the first of the directory that claims it -/
def configForDip (dip : Int) : Text :=
  if dip≤0 then []
  else ((s.files.entries.find? fun f => validConfigName f.1 && File.binds f.2 dip).map Sigma.fst).getD []

variable (b : Board)

def webconfigsWrite (name : Text) (document : Document) (fromLive : Bool) (fate : Fate) : Store × Reply :=
  match document.devices with
  | .value devices =>
    match b.validateConfigDocument devices with
    | some error => (s,.refused 422 error)
    | none => onOk (fun t => if fromLive then t.setCurrent name else t)
        (s.writeConfigFile name (s.preserveMetadata name document) fate)
  | _ => (s,.refused 422 "configuration must be a JSON object with a \"devices\" array".toList)

def webconfigsSave (name : Text) (snapshot : List Entry) (fate : Fate) : Store × Reply :=
  onOk (fun t => t.setCurrent name)
    (s.writeConfigFile name (s.preserveMetadata name ⟨.absent,.absent,.absent,.absent,.value snapshot⟩) fate)

/-- The document of an import: unbound where its setting is taken, and never one that starts itself -/
def imported (name : Text) (doc : Document) : Document :=
  let holder := s.configForDip doc.configDipValue
  { doc with
    dipValue := if 0≤doc.configDipValue ∧ holder≠[] ∧ holder≠name then .absent else doc.dipValue
    autostart := .absent }

def webconfigsImport (name : Text) (doc : Document) (fate : Fate) : Store × Reply :=
  if (s.doc? name).isSome then
    (s,.refused 409 ("a configuration named ".toList++quoted name ++
      " is already here; import under another name".toList))
  else s.webconfigsWrite b name (s.imported name doc) false fate

def edit (name : Text) (change : Document → Document) (fate : Fate) : Store × Reply :=
  match s.doc? name with
  | none => (s,.refused 404 (s.readError name))
  | some doc => s.writeConfigFile name (change doc) fate

def configSetTitle (name : Text) (value : Field Text) (fate : Fate) : Store × Reply :=
  match value with
  | .value title =>
    if 128<title.length then (s,.refused 422 "title too long (max 128 characters)".toList)
    else s.edit name (fun doc => { doc with title := if title=[] then .absent else .value title }) fate
  | _ => (s,.refused 400 "body must be a JSON object with a string \"value\"".toList)

def configSetDip (name : Text) (body : Option (Field ℚ)) (fate : Fate) : Store × Reply :=
  match body with
  | none => (s,.refused 400 "body must be a JSON object with a \"value\"".toList)
  | some .other => (s,.refused 400 "value must be a number 1..15 or null".toList)
  | some .absent => s.edit name (fun doc => { doc with dipValue := .absent }) fate
  | some (.value v) =>
    let dip := truncated v
    if dip<1 ∨ 15<dip then
      (s,.refused 422 (if dip=0 then
        "switch setting 0 selects the configuration saved most recently; it cannot be bound to one".toList
        else "dip value must be 1..15 or null".toList))
    else if s.configForDip dip≠[] ∧ s.configForDip dip≠name then
      (s,.refused 409 ("DIP value ".toList++Nat.toDigits 10 dip.toNat ++ " already selects configuration ".toList ++
        quoted (s.configForDip dip)))
    else s.edit name (fun doc => { doc with dipValue := .value dip }) fate

def configSetAutostart (name : Text) (body : Option (Field Bool)) (fate : Fate) : Store × Reply :=
  match body with
  | none => (s,.refused 400 "body must be a JSON object with a \"value\"".toList)
  | some (.value on) =>
    s.edit name (fun doc => { doc with autostart := if on then .value true else .absent }) fate
  | some _ => (s,.refused 400 "value must be true or false".toList)

def configSetLayout (name : Text) (body : Option (Field Text)) (fate : Fate) : Store × Reply :=
  match body with
  | none => (s,.refused 400 "body must be a JSON object with a \"value\"".toList)
  | some (.value layout) => s.edit name (fun doc => { doc with layout := .value layout }) fate
  | some _ => s.edit name (fun doc => { doc with layout := .absent }) fate

def before (devname : Text) (devices : List Entry) : List Entry :=
  devices.takeWhile fun d => d.name≠.value devname

def fromTarget (devname : Text) (devices : List Entry) : List Entry :=
  devices.dropWhile fun d => d.name≠.value devname

/-- `config_set_image` on a document's devices -/
def setImageIn (name devname path : Text) (doc : Document) (devices : List Entry) (fate : Fate) : Store × Reply :=
  match fromTarget devname devices with
  | [] =>
    (s,.refused 404 ("configuration ".toList++quoted name ++ " does not name device ".toList++quoted devname))
  | target::after =>
    match if path=[] then none else (before devname devices++after).find? fun d =>
        b.imageSubpath d.deviceImage=b.imageSubpath path with
    | some other =>
      (s,.refused 409 (quoted (b.imageSubpath path) ++ " is already the image of ".toList ++
        other.name.get?.getD "another drive".toList ++ " in this configuration".toList))
    | none =>
      s.overwriteFile name
        { doc with devices := .value (before devname devices++target.withImage path::after) } fate

def configSetImage (name devname : Text) (value : Field Text) (fate : Fate) : Store × Reply :=
  match value with
  | .value text =>
    match s.doc? name with
    | none => (s,.refused 404 (s.readError name))
    | some doc =>
      match doc.devices with
      | .value devices => s.setImageIn b name devname (b.imagePath text) doc devices fate
      | _ => (s,.refused 422 ("configuration ".toList++quoted name ++ " names no devices".toList))
  | _ => (s,.refused 400 "body must be a JSON object with a string \"value\"".toList)

def moved (source target : Text) (file : File) : Store :=
  ⟨(s.files.erase source).insert target file,if s.current=source then target else s.current⟩

def webconfigsRename (source target : Text) (fate : Fate) : Store × Reply :=
  if validConfigName source=false ∨ validConfigName target=false then
    (s,.refused 409 "invalid configuration name".toList)
  else
    match s.files.lookup source with
    | none => (s,.refused 409 ("unknown configuration ".toList++quoted source))
    | some file =>
      if target∈s.files then
        (s,.refused 409 ("configuration ".toList++quoted target ++ " already exists".toList))
      else
        s.alter (s.moved source target file)
          (.refused 409 ("cannot rename configuration ".toList++quoted source)) fate

def configRename (source : Text) (target : Field Text) (fate : Fate) : Store × Reply :=
  match target with
  | .value name => s.webconfigsRename source name fate
  | _ => (s,.refused 400 "body must be a JSON object with a string \"name\"".toList)

def webconfigsDelete (name : Text) (fate : Fate) : Store × Reply :=
  if name=s.current then
    (s,.refused 409 ("configuration ".toList++quoted name ++
      " is the current one; switch to another first".toList))
  else if name∈s.files then
    s.alter { s with files := s.files.erase name } (.refused 404 ("unknown configuration ".toList++quoted name)) fate
  else (s,.refused 404 ("unknown configuration ".toList++quoted name))

/-- `webconfigs_apply`, as far as it is about the store -/
def webconfigsApply (name : Text) (fate : Fate) : Store × Reply :=
  match s.doc? name with
  | none => (s,.refused 404 (s.readError name))
  | some doc =>
    match doc.devices with
    | .value devices =>
      match b.duplicateImageIn devices with
      | some conflict => (s,.refused 409 conflict)
      | none =>
        match fate with
        | .crash _ => (s.down,.crashed)
        | _ => (s.setCurrent name,.ok)
    | _ => (s,.refused 404 ("configuration ".toList++quoted name ++ " has no devices".toList))

def badDocument (text : Text) : Store × Reply := (s,.refused 400 text)

def serve (fate : Fate) : Request → Store × Reply
  | .put name (some doc) fromLive => s.webconfigsWrite b name doc fromLive fate
  | .put _ none _ => s.badDocument "body must be a JSON configuration document \x7b\"devices\":[…]\x7d".toList
  | .importDocument name (some doc) => s.webconfigsImport b name doc fate
  | .importDocument _ none => s.badDocument "body must be a configuration document".toList
  | .title name value => s.configSetTitle name value fate
  | .dip name body => s.configSetDip name body fate
  | .autostart name body => s.configSetAutostart name body fate
  | .layout name body => s.configSetLayout name body fate
  | .image name devname value => s.configSetImage b name devname value fate
  | .rename source target => s.configRename source target fate
  | .delete name => s.webconfigsDelete name fate
  | .save name snapshot => s.webconfigsSave name snapshot fate
  | .apply name => s.webconfigsApply b name fate

end

end Store

def Request.name : Request → Text
  | .put name _ _ | .importDocument name _ | .title name _ | .dip name _ | .autostart name _ | .layout name _
  | .image name _ _ | .rename name _ | .delete name | .save name _ | .apply name => name

namespace Store

/-- `api_configs_handler`, for the requests that change something -/
def request (b : Board) (s : Store) (r : Request) (fate : Fate) : Store × Reply :=
  if validConfigName r.name then s.serve b fate r else (s,.refused 404 "unknown configuration".toList)

end Store

end QUniLator.Web.Configs
