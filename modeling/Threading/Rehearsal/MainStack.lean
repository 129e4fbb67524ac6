import Threading.Rehearsal.Cast

/-!
# The initial thread's stack in a rehearsal

The kernel of a rehearsal describes the initial thread's stack in a status line
and a list of mappings like any other.
-/
namespace Threading.Rehearsal

/-- Where the stack of the initial thread started. -/
def stackStart : Nat := 0x7ffffffde000

/-- The end of its mapping. -/
def stackEnd : Nat := 0x7ffffffff000

/-- The bytes of a text. -/
def bytesOf (text : String) : Procfs.Bytes := text.toUTF8.toList

/-- The status line: the fields before the stack's start do not matter here. -/
def statusLine (pid : Tid) : Procfs.Bytes :=
  bytesOf (Text.signedDecimal pid.toInt ++ " (rehearsal) S" ++
    String.join (List.replicate 24 " 0") ++ " " ++ Text.decimal stackStart ++ " 0\n")

/-- Hexadecimal digits. -/
def hexDigits (n : Nat) : String := String.ofList (Nat.toDigits 16 n)

/-- One mapping besides the stack's. -/
def mappings : Procfs.Bytes :=
  bytesOf ("00400000-00500000 r-xp 00000000 00:00 0\n" ++
    hexDigits (stackStart - 0x20000) ++ "-" ++ hexDigits stackEnd ++
    " rw-p 00000000 00:00 0 [stack]\n")

/-- The error number for a process that cannot open another file. -/
def tooManyFiles : Int32 := 24

variable (r : Rehearsal)

/-- The stack under a limit, which is none when there is none. -/
def mainStack (limit : Option UInt64) (filesOpen : Bool) : Except Error (UInt64 × UInt64) :=
  let file (bytes : Procfs.Bytes) : Except Int32 Procfs.Bytes :=
    if filesOpen then .ok bytes else .error tooManyFiles
  Procfs.mainThreadStack limit (file (statusLine r.group.pid)) (file mappings)

/-- The attributes of the initial thread under a limit. -/
def mainAttributes (limit : Option UInt64) (filesOpen : Bool) : Except Error Attributes :=
  r.group.attributes initialBlock (r.mainStack limit filesOpen)

/-- The attributes of a thread; of the initial one under the usual limit. -/
def attributes (name : String) : Except Error Attributes :=
  match r.handle? name with
  | none => .error .noSuchThread
  | some i => r.group.attributes i (r.mainStack none true)

end Threading.Rehearsal
