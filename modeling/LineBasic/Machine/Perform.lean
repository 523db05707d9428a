import LineBasic.Machine.Closing

/-!
# Actions

What every single statement does to a machine. The operands of a statement are
evaluated in the order in which they are written, and before anything is
changed. `RUN` and `CONT` start a run, and what a run is comes from outside
(`run`), so an action by itself always comes to an end.

* `Action.perform`: what an action does.
-/

namespace LineBasic

namespace Act

/-- Writes a number. -/
def writeNumber (name : String) (i : Int64) (v : Value) : Act Unit :=
  memory (·.write .numeric name i v)

/-- Writes a text. -/
def writeText (name : String) (i : Int64) (s : String) : Act Unit :=
  memory (·.write .text name i (.text s))

/-- Writes a value to a place. -/
def assign (place : Place) (e : Expr) : Act Unit := do
  let i ← index place
  match VariableKind.ofName place.name with
  | .text => writeText place.name i (← text e)
  | .numeric => writeNumber place.name i (← numeric e)

/-! ### Jumps and subroutines -/

/-- The line at an address follows. -/
def follow (address : Nat) : Act Unit :=
  modify fun m => { m with control := { m.control with following := address } }

/-- Calls the subroutine at a line. -/
def callLine (n : Int64) : Act Unit := do
  let address ← inspect (·.control.resolve n)
  control fun c => c.push (.returnTo c.following)
  follow address

/-- Returns from a subroutine. -/
def returnBack : Act Unit :=
  control fun c =>
    match c.stack.top? with
    | some (.returnTo address) =>
      if address < c.size then .ok { c with stack := c.stack.pop, following := address }
      else .error (.returnOutside address)
    | some (.loop _) => .error .returnInLoop
    | none => .error .returnNowhere

/-! ### Loops over lines -/

/-- The first value, the limit and the step of a loop, and the index of its
counter. -/
def range (head : LoopHead) : Act (Int64 × Int64 × Int64 × Stride) := do
  let i ← index head.place
  let start ← integer head.start
  let limit ← integer head.limit
  let step ← stride head.step
  return (i, start, limit, step)

/-- Enters a loop over lines, or goes on behind it if the first value is past
the limit. -/
def startLoop (line : Option Int64) (head : LoopHead) : Act Unit := do
  let (i, start, limit, step) ← range head
  let l : Loop := ⟨head.place.name, i, (← get).control.following, limit, step⟩
  writeNumber l.counter i (.integer start)
  if l.admits (.integer start) then control (·.push (.loop l))
  else follow ((← inspect (·.closing line l.counter)) + 1)

/-- Takes the latest frame off the stack. It must be a loop. -/
def takeLoop : Act Loop := do
  let frame := (← get).control.stack.top?
  control fun c => .ok { c with stack := c.stack.pop }
  match frame with
  | some (.loop l) => return l
  | _ => fail .loopVanished

/-- Goes on with the next value of a loop that was taken off the stack, or
behind it. -/
def continueLoop (l : Loop) : Act Unit := do
  let v ← inspect (·.memory.readNumber l.counter l.index)
  let v ← ofExcept (Binary.add.apply v (.integer l.step))
  if l.admits v then
    writeNumber l.counter l.index v
    follow l.start
    control (·.push (.loop l))

/-- Goes on with the next value of a loop over lines, or behind it. The loops
inside it are over. -/
def next (name : Option String) : Act Unit := do
  match Stack.findLoop? name (← get).control.stack.frames with
  | none => fail (.nextWithoutFor name)
  | some above =>
    control fun c => .ok { c with stack := c.stack.drop above }
    continueLoop (← takeLoop)

/-! ### The console and files -/

/-- The text of some items that are printed. -/
def printed : List (Expr × Separator) → Act String
  | [] => return ""
  | (e, separator) :: rest => do
    let s := (← value e).display
    let tail ← printed rest
    return s ++ (if separator = .semicolon then " " else "") ++ tail

/-- Whether a line feed follows some items that are printed: not behind a
separator. -/
def endsLine (items : List (Expr × Separator)) : Bool :=
  items.getLast?.all (·.2 = .none)

/-- Asks for a value and writes it. -/
def ask (prompt name : String) (i : Int64) : Act Unit := do
  match VariableKind.ofName name with
  | .text => writeText name i (← console (·.input prompt))
  | .numeric => writeNumber name i (.integer (← console (·.inputInteger prompt)))

/-- The lines of a file. -/
def readLines (file : String) : Act (List String) := inspect (·.console.readLines file)

/-- Writes a file. -/
def writeFile (file content : String) : Act Unit := fun m =>
  match m.console.writeText file content with
  | .ok console => .ok () { m with console }
  | .error e => .error (.failed e) m

/-- The texts of all slots of a variable, one behind the other. -/
def joined (m : Memory) (v : Variable) : Except Error String :=
  (List.range v.size).foldlM (fun s i => return s ++ (← m.readText v.name (Int64.ofNat i))) ""

/-- Takes the program from the lines of a file. At an error the lines before are
kept. -/
def loadLines (texts : List String) : Act Unit := fun m =>
  match Listing.load texts with
  | (.ok _, listing) => .ok () { m with listing }
  | (.error e, listing) => .error (.failed e) { m with listing }

end Act

/-- What an action does, in a program line or outside of any. -/
def Action.perform (run : Act Unit) (line : Option Int64) : Action → Act Unit
  | label name =>
    match line with
    | some n => Act.writeNumber name 0 (.integer n)
    | none => pure ()
  | debug => Machine.debug
  | trace mode => do
    if let some e := mode then
      let on ← Act.truth e
      modify fun m => { m with control := { m.control with trace := on } }
    Act.printLine ("TRACE IS: " ++ if (← get).control.trace then "ON" else "OFF")
  | remark comment => do
    if (← get).control.trace then Act.printLine ("COMMENT: \"" ++ comment ++ "\"")
  | assign place value => Act.assign place value
  | dim name size => do
    let n ← Act.integer size
    Act.remember (·.dim name n none)
  | goto target => do
    let n ← Act.integer target
    Act.control (·.jump n)
  | gosub target => do Act.callLine (← Act.integer target)
  | returns => Act.returnBack
  | clear => Act.console fun c => (.ok (), c.clear)
  | print items => do Act.print (← Act.printed items) (Act.endsLine items)
  | input prompt mark place => do
    let s ← Act.text prompt
    let i ← Act.index place
    Act.ask (if mark then s ++ "?" else s) place.name i
  | new => modify Machine.renew
  | list first last => do
    let first ← Act.integer? first
    let last ← Act.integer? last
    Act.printAll ((← get).listing.range first last)
    Act.printLine "DONE"
  | read name file => do
    let texts ← Act.readLines (← Act.text file)
    Act.remember fun m => (m.storeLines name (texts.map trimEnd)).mapError .failed
  | write name file => do
    let v ← Act.inspect (·.memory.find name)
    let f ← Act.text file
    Act.writeFile f (← Act.inspect (Act.joined ·.memory v))
  | load file => do
    let f ← Act.text file
    let texts ← Act.readLines f
    Act.loadLines texts
    Act.printLine ("PROGRAM LOADED: " ++ f ++ ", " ++ Nat.repr texts.length ++ " LINES")
  | save file => do
    let f ← Act.text file
    Act.writeFile f (unlines ((← get).listing.range none none))
    Act.printLine ("PROGRAM STORED INTO " ++ f)
  | finish => throw .finished
  | quit => throw .quit
  | .run => do
    Machine.reset
    run
  | reset => Machine.reset
  | resume => do
    if (← get).control.inRange then run else Act.fail .cantContinue
  | startLoop head => Act.startLoop line head
  | next name => Act.next name

end LineBasic
