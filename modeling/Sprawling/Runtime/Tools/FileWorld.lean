import Sprawling.Runtime.Tools.Edit

namespace Sprawling

open EditTool

/-- What the platform answers one step of a call. -/
inductive Platform where
  | does
  | refuses (why : String)
  /-- The store refuses a write before it happens. -/
  | storage (error : AxError)
  /-- A write happens, and the file it leaves has this stamp. -/
  | mints (stamp : Stamp)
  /-- A write happens, and what comes after it in the same call is refused. -/
  | mintsThenRefuses (stamp : Stamp) (error : AxError)

/-- What a call answers; a landed edit's echo is drawn from the two texts. -/
inductive FileAnswer where
  | edited (rel before after : List Char)
  | shown (text : List Char)

/-- Where one call is. -/
inductive Flight (ρ : Type) where
  /-- The call was not made yet. -/
  | idle
  /-- An edit waits for the path lock. -/
  | waiting (run : ρ) (request : EditRequest)
  /-- It holds the lock. -/
  | entered (run : ρ) (request : EditRequest)
  /-- It has the file's stamp before its read. -/
  | stamped (run : ρ) (request : EditRequest) (before : Stamp)
  /-- It has the bytes. -/
  | gathered (run : ρ) (request : EditRequest) (before : Stamp) (bytes : List UInt8)
  /-- It has the text and the stamp it is admitted on. -/
  | judged (run : ρ) (request : EditRequest) (text : List Char) (current : Option Stamp)
  /-- It was refused as moved and has not noted the look yet. -/
  | moved (run : ρ) (request : EditRequest) (text : List Char) (current : Stamp)
  | creating (run : ρ) (request : EditRequest)
  /-- The name is the call's, and its file is still empty. -/
  | claimed (run : ρ) (request : EditRequest) (node : Nat)
  | replacing (run : ρ) (request : EditRequest) (text updated : List Char)
  | landed (run : ρ) (request : EditRequest) (text updated : List Char)
  /-- It has the stamp after its write and has not noted it yet. -/
  | noting (run : ρ) (request : EditRequest) (text updated : List Char) (stamp : Option Stamp)
  /-- A read has not opened the file yet. -/
  | opening (run : ρ) (args : Json)
  | opened (run : ρ) (args : Json) (node : Nat)
  | handled (run : ρ) (args : Json) (node : Nat) (before : Stamp)
  | showing (run : ρ) (args : Json) (node : Nat) (before : Stamp) (bytes : List UInt8)
  /-- It has what it answers and has not noted the look yet. -/
  | noticing (run : ρ) (text : List Char) (stamp : Stamp)
  | done (answer : Except AxError FileAnswer)

/-- What happens to the file and to the runs' tables. -/
inductive FileDeed (ρ ι : Type) where
  /-- A run makes a call. -/
  | called (call : ι) (run : ρ)
  /-- A writer that is no edit changes what stands at the path. -/
  | wrote (standing : Option Standing)
  /-- A file that no longer stands at the path takes other bytes. -/
  | strayed (standing : Standing)
  /-- An edit's replacement is renamed over the path. -/
  | landed (call : ι) (run : ρ) (request : EditRequest) (standing : Standing)
  /-- An edit claims the path with an empty file. -/
  | claimed (call : ι) (standing : Standing)
  /-- The bytes of a claimed file are written. -/
  | created (call : ι) (request : EditRequest) (standing : Standing)
  /-- A file an edit could not fill is taken back. -/
  | withdrew (call : ι)
  /-- A call takes the stamp that closes its look. -/
  | glimpsed (call : ι) (stamp : Option Stamp)
  /-- An edit is admitted to replace. -/
  | admitted (call : ι)
  /-- A run notes a look: the stamp, and the text it was shown if it was shown one. -/
  | looked (run : ρ) (call : ι) (stamp : Stamp) (shown : Option (List Char))
  | refused (call : ι) (why : EditRefusal)
deriving DecidableEq

/-- One file, the calls on it, and the runs' tables. Every file there ever was at the path keeps its
node: a call that opened it reads it there. -/
structure FileWorld (ρ ι : Type) where
  nodes : List Standing
  path : Option Nat
  /-- Every stamp there ever was, with the bytes it stood for. -/
  minted : List Standing
  seen : ρ → Option Stamp
  /-- The call that holds the path lock. -/
  holder : Option ι
  flights : ι → Flight ρ
  deeds : List (FileDeed ρ ι)

inductive FileAct (ρ ι : Type) where
  /-- A run calls `edit`. -/
  | edit (call : ι) (run : ρ) (doors : EditTool.Doors) (args : Json)
  | read (call : ι) (run : ρ) (args : Json)
  /-- The next step of a call. -/
  | go (call : ι) (platform : Platform)
  /-- Somebody else writes a file in place. -/
  | rewrite (node : Nat) (standing : Standing)
  /-- Somebody else puts another file at the path. -/
  | replace (standing : Standing)
  | remove

namespace FileWorld

variable {ρ ι : Type} [DecidableEq ρ] [DecidableEq ι]

/-- What stands at the path. -/
def standing (world : FileWorld ρ ι) : Option Standing :=
  world.path.bind fun node => world.nodes[node]?

def stamp (world : FileWorld ρ ι) : Option Stamp := world.standing.map (·.stamp)

/-- The stamp was never seen before. -/
def Fresh (world : FileWorld ρ ι) (stamp : Stamp) : Prop :=
  ∀ old ∈ world.minted, old.stamp ≠ stamp

instance (world : FileWorld ρ ι) (stamp : Stamp) : Decidable (world.Fresh stamp) :=
  inferInstanceAs (Decidable (∀ old ∈ world.minted, old.stamp ≠ stamp))

def noted (world : FileWorld ρ ι) (deed : FileDeed ρ ι) : FileWorld ρ ι :=
  { world with deeds := world.deeds ++ [deed] }

/-- The call goes on at a stage. -/
def onto (world : FileWorld ρ ι) (call : ι) (flight : Flight ρ) : FileWorld ρ ι :=
  { world with flights := fun other => if other = call then flight else world.flights other }

/-- The call lets go of the lock if it holds it, and answers. -/
def answers (world : FileWorld ρ ι) (call : ι) (answer : Except AxError FileAnswer) :
    FileWorld ρ ι :=
  onto { world with holder := if world.holder = some call then none else world.holder } call
    (.done answer)

def refuses (world : FileWorld ρ ι) (call : ι) (why : EditRefusal) (error : AxError) :
    FileWorld ρ ι :=
  (world.noted (.refused call why)).answers call (.error error)

/-- The run's table takes a look. -/
def look (world : FileWorld ρ ι) (call : ι) (run : ρ) (stamp : Stamp)
    (shown : Option (List Char)) : FileWorld ρ ι :=
  noted { world with seen := fun other => if other = run then some stamp else world.seen other }
    (.looked run call stamp shown)

/-- Another file at the path. -/
def place (world : FileWorld ρ ι) (standing : Standing) : FileWorld ρ ι :=
  { world with
    nodes := world.nodes ++ [standing]
    path := some world.nodes.length
    minted := standing :: world.minted }

/-- Other bytes in a file. -/
def fill (world : FileWorld ρ ι) (node : Nat) (standing : Standing) : FileWorld ρ ι :=
  { world with
    nodes := world.nodes.set node standing
    minted := standing :: world.minted }

/-- An edit's replacement at the path. -/
def lands (world : FileWorld ρ ι) (call : ι) (run : ρ) (request : EditRequest)
    (standing : Standing) : FileWorld ρ ι :=
  (world.place standing).noted (.landed call run request standing)

/-- The bytes of a claimed file, which stands at the path unless somebody moved it from there. -/
def filled (world : FileWorld ρ ι) (call : ι) (request : EditRequest) (node : Nat)
    (stamp : Stamp) : FileWorld ρ ι :=
  let standing : Standing := ⟨stamp, Utf8.encode request.new⟩
  if world.path = some node then (world.fill node standing).noted (.created call request standing)
  else (world.fill node standing).noted (.strayed standing)

/-- The refusal for a file that did not open or is not text. -/
def unread (why : String) : AxError :=
  .failure .storageFatal "read" why
    "pick a path from `nearby` or a name the catalog lists, or find the file with `search`"

/-- A step of a call that takes the file's stamp. -/
def stamped (world : FileWorld ρ ι) (call : ι) (stamp : Option Stamp) : FileWorld ρ ι :=
  world.noted (.glimpsed call stamp)

section Edits

variable (world : FileWorld ρ ι) (call : ι) (run : ρ) (request : EditRequest)

def hold : Platform → Option (FileWorld ρ ι)
  | .does =>
    if world.holder = none then
      some (onto { world with holder := some call } call (.entered run request))
    else none
  | _ => none

/-- The first stamp; a replacement is first asked whether the run may make it. -/
def enter (platform : Platform) : Option (FileWorld ρ ι) :=
  match request.intent, request.limit, platform with
  | .create, _, .does => some (world.onto call (.judged run request [] world.stamp))
  | .replace, some refusal, _ => some (world.refuses call .door refusal)
  | .replace, none, .does =>
    match world.stamp with
    | none => some (world.onto call (.judged run request [] none))
    | some before => some (world.onto call (.stamped run request before))
  | _, _, .refuses why =>
    some (world.refuses call .unreadable (EditTool.unreadable request.rel why))
  | _, _, _ => none

/-- The file's bytes. -/
def gather (before : Stamp) : Platform → Option (FileWorld ρ ι)
  | .does => world.standing.map fun standing =>
    world.onto call (.gathered run request before standing.bytes)
  | .refuses why => some (world.refuses call .unreadable (EditTool.unreadable request.rel why))
  | _ => none

/-- The second stamp: one that differs means another writer was in the middle of the read. -/
def compare (before : Stamp) (bytes : List UInt8) : Platform → Option (FileWorld ρ ι)
  | .does =>
    let after := world.stamp
    let world := world.stamped call after
    if after ≠ some before then some (world.refuses call .torn (EditTool.torn request.rel))
    else match Utf8.decode bytes with
      | none => some (world.refuses call .notText (EditTool.notText request.rel))
      | some text => some (world.onto call (.judged run request text after))
  | .refuses why => some (world.refuses call .unreadable (EditTool.unreadable request.rel why))
  | _ => none

/-- An admitted call goes on to make its file, or its replacement. -/
def admitOne (text : List Char) : FileWorld ρ ι :=
  match request.intent with
  | .create => world.onto call (.creating run request)
  | .replace =>
    match request.updated text with
    | .error hits => world.refuses call .unmatched (EditTool.unmatched request.rel hits)
    | .ok updated =>
      (world.noted (.admitted call)).onto call (.replacing run request text updated)

/-- The admission, by what the run's table holds. -/
def judge (text : List Char) (current : Option Stamp) : Platform → Option (FileWorld ρ ι)
  | .does =>
    match admission (world.seen run) current request.intent with
    | .absent => some (world.refuses call .absent (EditTool.absent request.rel))
    | .unread => some (world.refuses call .unread (EditTool.unread request.rel))
    | .present => some (world.refuses call .present (alreadyExists request.rel))
    | .moved => current.map fun stamp => world.onto call (.moved run request text stamp)
    | .lands => some (world.admitOne call run request text)
  | _ => none

/-- The passage a moved refusal shows counts as a look. -/
def showMoved (text : List Char) (current : Stamp) : Platform → Option (FileWorld ρ ι)
  | .does =>
    some ((world.look call run current (some text)).refuses call .moved
      (EditTool.moved request.rel text request.old))
  | _ => none

/-- The file system claims the name at the write. -/
def claim : Platform → Option (FileWorld ρ ι)
  | .mints stamp =>
    let standing : Standing := ⟨stamp, []⟩
    if world.path.isSome then
      some (world.refuses call .present (alreadyExists request.rel))
    else if world.Fresh stamp then
      some (((world.place standing).noted (.claimed call standing)).onto call
        (.claimed run request world.nodes.length))
    else none
  | .storage error => some (world.refuses call .storage error)
  | _ => none

/-- A claimed file takes its bytes, or is taken back. -/
def create (node : Nat) : Platform → Option (FileWorld ρ ι)
  | .mints stamp =>
    if world.Fresh stamp then
      some ((world.filled call request node stamp).onto call
        (.landed run request [] request.new))
    else none
  | .mintsThenRefuses stamp error =>
    if world.Fresh stamp then
      some ((world.filled call request node stamp).refuses call .storage error)
    else none
  | .storage error =>
    some ((noted { world with path := none } (.withdrew call)).refuses call .storage error)
  | _ => none

/-- The replacement lands by a rename. -/
def land (text updated : List Char) : Platform → Option (FileWorld ρ ι)
  | .mints stamp =>
    if world.Fresh stamp then
      some ((world.lands call run request ⟨stamp, Utf8.encode updated⟩).onto call
        (.landed run request text updated))
    else none
  | .mintsThenRefuses stamp error =>
    if world.Fresh stamp then
      let landed := world.lands call run request ⟨stamp, Utf8.encode updated⟩
      some (landed.refuses call .storage error)
    else none
  | .storage error => some (world.refuses call .storage error)
  | _ => none

/-- The stamp after the write. -/
def noteLanding (text updated : List Char) : Platform → Option (FileWorld ρ ι)
  | .does => some ((world.stamped call world.stamp).onto call
      (.noting run request text updated world.stamp))
  | .refuses why => some (world.refuses call .storage (EditTool.unreadable request.rel why))
  | _ => none

/-- What this run now knows the file to be. -/
def note (text updated : List Char) (stamp : Option Stamp) : Platform → Option (FileWorld ρ ι)
  | .does =>
    let noted := match stamp with
      | some stamp => world.look call run stamp none
      | none => world
    some (noted.answers call (.ok (.edited request.rel text updated)))
  | _ => none

end Edits

section Reads

variable (world : FileWorld ρ ι) (call : ι) (run : ρ) (args : Json)

def openRead : Platform → Option (FileWorld ρ ι)
  | .does => world.path.map fun node => world.onto call (.opened run args node)
  | .refuses why => some (world.answers call (.error (unread why)))
  | _ => none

/-- The first stamp of the file a read opened. -/
def handle (node : Nat) : Platform → Option (FileWorld ρ ι)
  | .does => world.nodes[node]?.map fun standing =>
    world.onto call (.handled run args node standing.stamp)
  | .refuses why => some (world.answers call (.error (unread why)))
  | _ => none

def readToEnd (node : Nat) (before : Stamp) : Platform → Option (FileWorld ρ ι)
  | .does => world.nodes[node]?.map fun standing =>
    world.onto call (.showing run args node before standing.bytes)
  | .refuses why => some (world.answers call (.error (unread why)))
  | _ => none

/-- The answer, and whether it counts as a look: nothing is noted when the stamps differ. -/
def showText (before : Stamp) (bytes : List UInt8) (after : Stamp) : FileWorld ρ ι :=
  match Utf8.decode bytes, ReadRequest.askedFor args with
  | none, _ => world.answers call (.error (unread "stream did not contain valid UTF-8"))
  | some _, .error refusal => world.answers call (.error refusal)
  | some text, .ok request =>
    if request.counts text && before = after then world.onto call (.noticing run text after)
    else world.answers call (.ok (.shown text))

/-- The second stamp. -/
def showRead (node : Nat) (before : Stamp) (bytes : List UInt8) :
    Platform → Option (FileWorld ρ ι)
  | .does => world.nodes[node]?.map fun standing =>
    (world.stamped call (some standing.stamp)).showText call run args before bytes standing.stamp
  | .refuses why => some (world.answers call (.error (unread why)))
  | _ => none

def notice (text : List Char) (stamp : Stamp) : Platform → Option (FileWorld ρ ι)
  | .does => some ((world.look call run stamp (some text)).answers call (.ok (.shown text)))
  | _ => none

end Reads

/-- The next step of a call; `none` where the platform cannot answer so. -/
def go (world : FileWorld ρ ι) (call : ι) (platform : Platform) : Option (FileWorld ρ ι) :=
  match world.flights call with
  | .idle | .done _ => none
  | .waiting run request => world.hold call run request platform
  | .entered run request => world.enter call run request platform
  | .stamped run request before => world.gather call run request before platform
  | .gathered run request before bytes => world.compare call run request before bytes platform
  | .judged run request text current => world.judge call run request text current platform
  | .moved run request text current => world.showMoved call run request text current platform
  | .creating run request => world.claim call run request platform
  | .claimed run request node => world.create call run request node platform
  | .replacing run request text updated => world.land call run request text updated platform
  | .landed run request text updated => world.noteLanding call run request text updated platform
  | .noting run request text updated stamp =>
    world.note call run request text updated stamp platform
  | .opening run args => world.openRead call run args platform
  | .opened run args node => world.handle call run args node platform
  | .handled run args node before => world.readToEnd call run args node before platform
  | .showing run args node before bytes => world.showRead call run args node before bytes platform
  | .noticing run text stamp => world.notice call run text stamp platform

/-- Somebody else's write; it changes the file where it reaches what stands at the path. -/
def outside (world : FileWorld ρ ι) : FileAct ρ ι → Option (FileWorld ρ ι)
  | .rewrite node standing =>
    if node < world.nodes.length ∧ world.Fresh standing.stamp then
      let deed := if world.path = some node then .wrote (some standing) else .strayed standing
      some ((world.fill node standing).noted deed)
    else none
  | .replace standing =>
    if world.Fresh standing.stamp then
      some ((world.place standing).noted (.wrote (some standing)))
    else none
  | .remove => some (noted { world with path := none } (.wrote none))
  | _ => none

/-- One step of the world; a call's number is used once. -/
def step (world : FileWorld ρ ι) : FileAct ρ ι → Option (FileWorld ρ ι)
  | .edit call run doors args =>
    match world.flights call with
    | .idle =>
      let world := world.noted (.called call run)
      match requested doors args with
      | .error refusal => some (world.refuses call .door refusal)
      | .ok request => some (world.onto call (.waiting run request))
    | _ => none
  | .read call run args =>
    match world.flights call with
    | .idle => some ((world.noted (.called call run)).onto call (.opening run args))
    | _ => none
  | .go call platform => world.go call platform
  | act => world.outside act

/-- The world after the acts it can take, in order. -/
def play (world : FileWorld ρ ι) (acts : List (FileAct ρ ι)) : FileWorld ρ ι :=
  acts.foldl (fun world act => (world.step act).getD world) world

/-- Before the first call: what stands at the path, and nobody has looked. -/
def opening (start : Option Standing) : FileWorld ρ ι where
  nodes := start.toList
  path := start.map fun _ => 0
  minted := start.toList
  seen := fun _ => none
  holder := none
  flights := fun _ => .idle
  deeds := []

end FileWorld

end Sprawling
