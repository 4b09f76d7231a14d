import ChunkViewer.Model.DrawSlice
import ChunkViewer.Model.ParseBedrock
import ChunkViewer.Model.Words

/-!
# The commands

The loop of `main`: each line is split into words and run as `what`, `graph` or `help`. A run
leaves a trace of what is printed, of the files and of the array that holds the coordinates.
Using the array after its release ends the run, as that is undefined.
-/

namespace ChunkViewer

/-- The messages a command ends with when it is not carried out. -/
inductive Report
  | badCoords
  | badFileName (fileName : String)
  | badDimension
  | badFacing
  | badInt (word : String)
  | badFlag (word : String)
  | badBounds
  | notValid
  | cannotCreate (fileName : String)
  | badArgument (command word : String)
  | unknownCommand (word : String)
deriving DecidableEq, Repr

def Report.text : Report → String
  | .badCoords => "Coordinates must be in format (x,y,z)"
  | .badFileName fileName => "'" ++ fileName ++ "' is not a valid file name."
  | .badDimension => "Dimension must be overworld, nether, or end."
  | .badFacing => "Direction must be n, s, e, or w."
  | .badInt word => "Error on parameter '" ++ word ++ "': Integer expected."
  | .badFlag word => "'" ++ word ++ "' is not a valid flag."
  | .badBounds => "Graph bounds must be positive and (y > 0)"
  | .notValid => "Block not valid for this world."
  | .cannotCreate fileName => "Error creating file '" ++ fileName ++ "':"
  | .badArgument command word => "Invalid '" ++ command ++ "' argument '" ++ word ++ "'"
  | .unknownCommand word => "Unknown command '" ++ word ++ "'"

inductive Event
  | print (text : String)
  | report (r : Report)
  | prompt
  | newArray
  | readArray
  | deleteArray
  | lookup (x y z : ℤ) (dim : ChunkDimension)
  | removeFile (fileName : String)
  | openFile (fileName : String)
  | writeFile (output : Output)
  | closeFile
deriving DecidableEq

abbrev Command := Traced Event Failure

def emit (e : Event) : Command Unit := Traced.emits [e]

/-- What the commands depend on beside the world. An `int` expression out of range is undefined;
here it may take any value, that of `overflow`. -/
structure Environment where
  order : IterationOrder
  stat : String → Bool
  opens : String → Bool
  overflow : ℤ → ℤ

def Environment.int (env : Environment) (n : ℤ) : ℤ :=
  if -2147483648 ≤ n ∧ n ≤ 2147483647 then n else env.overflow n

/-! ## The array of coordinates -/

structure CoordArray where
  x : ℤ
  y : ℤ
  z : ℤ
  live : Bool

def CoordArray.read (xyz : CoordArray) : Command (ℤ × ℤ × ℤ) := do
  emit .readArray
  if xyz.live then pure (xyz.x, xyz.y, xyz.z) else Traced.lift (.error .releasedArray)

/-- `delete[] xyz`. -/
def CoordArray.delete (xyz : CoordArray) : Command CoordArray := do
  emit .deleteArray
  if xyz.live then pure { xyz with live := false } else Traced.lift (.error .releasedArray)

/-- Parses a word for the format `(x,y,z)`. -/
def parseCoords (word : String) : Command (Option CoordArray) := do
  emit .newArray
  match coordinates word with
  | some (x, y, z) => pure (some ⟨x, y, z, true⟩)
  | none => do
    emit (.report .badCoords)
    emit .deleteArray
    pure none

/-! ## what -/

def dimensionOf (word : String) : Option ChunkDimension :=
  if word = "overworld" then some .OVERWORLD
  else if word = "nether" then some .NETHER
  else if word = "end" then some .ENDWORLD
  else none

/-- The word after `-d`. If it is no dimension the array is released and a prompt printed. -/
def whatDimension (word : String) (xyz : CoordArray) (dim : ChunkDimension) :
    Command (CoordArray × ChunkDimension) :=
  match dimensionOf word with
  | some dim => pure (xyz, dim)
  | none => do
    emit (.report .badDimension)
    let xyz ← xyz.delete
    emit .prompt
    pure (xyz, dim)

/-- The optional flags. The `continue` after a bad dimension goes on with this loop. -/
def whatLoop : List String → String → CoordArray → ChunkDimension →
    Command (String × CoordArray × ChunkDimension)
  | [], word, xyz, dim => pure (word, xyz, dim)
  | flag :: tokens, _, xyz, dim =>
    if flag = "-d" then
      match tokens with
      | [] => do
        let (xyz, dim) ← whatDimension flag xyz dim
        pure (flag, xyz, dim)
      | word :: tokens => do
        let (xyz, dim) ← whatDimension word xyz dim
        whatLoop tokens word xyz dim
    else whatLoop tokens flag xyz dim

/-- Retrieves the block and prints it. -/
def printBlock (env : Environment) (world : LoaderState) (xyz : CoordArray)
    (dim : ChunkDimension) : Command Unit := do
  let (x, y, z) ← xyz.read
  emit (.lookup x y z dim)
  let b ← Traced.lift (orStop (world.getBlock x y z dim))
  if b.state < 0 then emit (.report .notValid)
  else do
    let (x, y, z) ← xyz.read
    emit (.print ("Block at (" ++ toString x ++ "," ++ toString y ++ "," ++ toString z ++
      ") is "))
    let tag ← Traced.lift (derefTag b.stateTag)
    emit (.print (tag.printInnerTags env.order [] ++ "\n"))

/-- What block is at `(x,y,z)`? Returns the last word that was read. -/
def whatBlock (env : Environment) (world : LoaderState) (tokens : List String) (word : String) :
    Command String := do
  let (tokens, word) := nextWord tokens word
  match ← parseCoords word with
  | none => do
    emit .prompt
    pure word
  | some xyz => do
    let (word, xyz, dim) ← whatLoop tokens word xyz .OVERWORLD
    printBlock env world xyz dim
    let _ ← xyz.delete
    emit .prompt
    pure word

/-! ## graph -/

/-- The settings of a graph. -/
structure Settings where
  dim : ChunkDimension
  facing : String
  yMin : ℤ
  yMax : ℤ
deriving DecidableEq, Repr

/-- By default the graph shows the sub-chunk of the block. -/
def Environment.defaults (env : Environment) (y : ℤ) : Settings :=
  let yMin := ⌊(y : ℚ) / 16⌋ * 16
  ⟨.OVERWORLD, "n", yMin, env.int (yMin + 16)⟩

/-- One optional flag and the word after it. -/
def graphFlag (env : Environment) (flag word : String) (s : Settings) : Except Report Settings :=
  if flag = "-d" then
    match dimensionOf word with
    | some dim => .ok { s with dim := dim }
    | none => .error .badDimension
  else if flag = "-f" then
    if word ≠ "n" ∧ word ≠ "s" ∧ word ≠ "e" ∧ word ≠ "w" then .error .badFacing
    else .ok { s with facing := word }
  else if flag = "-ymin" then
    match stoi word with
    | some n => .ok { s with yMin := n }
    | none => .error (.badInt word)
  else
    match stoi word with
    -- Blocks should sit one below the graph maximum.
    | some n => .ok { s with yMax := env.int (n + 1) }
    | none => .error (.badInt word)

def isGraphFlag (flag : String) : Bool :=
  flag = "-d" ∨ flag = "-f" ∨ flag = "-ymin" ∨ flag = "-ymax"

/-- Reads the optional flags, up to the first that is wrong. Returns the last word too. -/
def graphLoop (env : Environment) : List String → String → Settings →
    String × Except Report Settings
  | [], word, s => (word, .ok s)
  | flag :: tokens, _, s =>
    if isGraphFlag flag then
      match tokens with
      | [] => (flag, graphFlag env flag flag s)
      | word :: tokens =>
        match graphFlag env flag word s with
        | .ok s => graphLoop env tokens word s
        | .error r => (word, .error r)
    else (flag, .error (.badFlag flag))

/-- An error after the array was made. -/
def abandon (xyz : CoordArray) (r : Report) : Command Unit := do
  emit (.report r)
  let _ ← xyz.delete
  emit .prompt

def graphHeader (s : Settings) : List Output :=
  let axis := if s.facing = "n" ∨ s.facing = "s" then "X" else "Z"
  let height : ℚ := (s.yMax - s.yMin : ℤ)
  puts "newgraph\n" ++ puts "x_translate -7\n" ++
    puts "y_translate " ++ [.number ((64 / height - 1) * -1)] ++ puts "\n" ++
    puts "xaxis min 0 max 16 size " ++ [.number 2.5] ++
    puts (" hash 4 mhash 3 label : Block " ++ axis ++ "\n") ++
    puts "yaxis min " ++ [.number s.yMin] ++ puts " max " ++ [.number s.yMax] ++
    puts " size " ++ [.number (2.5 * (height / 16))] ++ puts " hash 4 mhash 3 label : Block Y\n"

/-- Retrieves the chunk and graphs its slice. The old file is removed first. -/
def graphChunk (env : Environment) (world : LoaderState) (xyz : CoordArray) (fileName : String)
    (s : Settings) : Command Unit := do
  let (x, y, z) ← xyz.read
  emit (.lookup x y z s.dim)
  match ← Traced.lift (orStop (world.getBlockChunk x z s.dim)) with
  | none => abandon xyz .notValid
  | some p => do
    emit (.removeFile fileName)
    emit (.openFile fileName)
    if env.opens fileName then do
      Traced.emits ((graphHeader s).map .writeFile)
      let (x, _, z) ← xyz.read
      let chunk ← Traced.lift (orStop (world.deref p))
      (drawSlice env.order env.stat chunk x z s.facing s.yMin s.yMax).mapEvents .writeFile
      emit .closeFile
      let _ ← xyz.delete
      emit .prompt
    else abandon xyz (.cannotCreate fileName)

/-- Graphs the slice a block is in. Returns the last word that was read into `word`. -/
def graphBlock (env : Environment) (world : LoaderState) (tokens : List String) (word : String) :
    Command String := do
  let (tokens, word) := nextWord tokens word
  match ← parseCoords word with
  | none => do
    emit .prompt
    pure word
  | some xyz => do
    let (_, y, _) ← xyz.read
    let (tokens, fileName) := nextWord tokens ""
    if fileName.toList.all (· = ' ') then do
      abandon xyz (.badFileName fileName)
      pure word
    else
      match graphLoop env tokens word (env.defaults y) with
      | (word, .error r) => do
        abandon xyz r
        pure word
      | (word, .ok s) => do
        if s.yMax < 0 ∨ s.yMax ≤ s.yMin ∨ s.yMin < 0 then abandon xyz .badBounds
        else graphChunk env world xyz fileName s
        pure word

/-! ## Lines -/

/-- Gives the usage for a command. -/
def usage (word : String) : Event :=
  if word = "what" then .print "what [block] [(x,y,z)] [-d overworld|nether|end]\n"
  else if word = "graph" then
    .print ("graph [block] [(x,y,z)] [filename] [-d overworld|nether|end] [-f n|s|e|w] " ++
      "[-ymin int] [-ymax int]\n")
  else .report (.unknownCommand word)

/-- `what` and `graph` have one kind of argument. -/
def withBlock (command : String) (run : List String → String → Command String)
    (tokens : List String) (word : String) : Command String := do
  let (tokens, word) := nextWord tokens word
  if word = "block" then run tokens word
  else do
    emit (.report (.badArgument command word))
    emit .prompt
    pure word

/-- Runs one line, given the last word of the lines before. -/
def runLine (env : Environment) (world : LoaderState) (tokens : List String) (word : String) :
    Command String := do
  let (tokens, word) := nextWord tokens word
  if word = "what" then withBlock "what" (whatBlock env world) tokens word
  else if word = "graph" then withBlock "graph" (graphBlock env world) tokens word
  else if word = "help" then do
    let (_, word) := nextWord tokens word
    emit (usage word)
    emit .prompt
    pure word
  else do
    emit (.report (.unknownCommand word))
    emit .prompt
    pure word

/-- The lines of the input up to its end, each with the environment it is run in. -/
def session (world : LoaderState) : List (Environment × String) → String → Command Unit
  | [], _ => emit (.print "\n")
  | (env, line) :: lines, word => do
    let word ← runLine env world (lineWords line) word
    session world lines word

/-- Reads the world and runs the lines of the input. A database that cannot be opened is `none`.
Returns the exit code. -/
def main (fuel : ℕ) (database : Option (List Entry)) (lines : List (Environment × String)) :
    Command ℤ :=
  match database with
  | none => pure (-1)
  | some entries => do
    let (loaded, world) ← Traced.lift (orStop (parseBedrock fuel entries))
    if loaded then do
      emit .prompt
      session world lines ""
      pure 0
    else pure (-1)

end ChunkViewer
