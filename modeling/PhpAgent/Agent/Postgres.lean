import PhpAgent.Agent.TraceContext
import PhpAgent.Lib.Memory
import PhpAgent.Util.SqlTable

/-! Connection strings of Postgres, after `nr_postgres.c`. The copy of the string is a memory that ends with
its NUL; names and values are cut out of it in place. Loops have fuel. -/
namespace PhpAgent

open Json (code)
open CString (stringAt)

/-- The host, the port, path or id, and the name of the database; `none` is NULL. -/
@[ext]
structure ConnInfo where
  host : Option Bytes
  portPathOrId : Option Bytes
  databaseName : Option Bytes
  deriving DecidableEq

namespace Postgres

/-! ### Defaults -/

/-- `nr_strempty` of a string that may be NULL. -/
def strempty (s : Option Bytes) : Bool := s.getD [] = []

section Environment
variable (getenv : String → Option Bytes)

/-- `nr_postgres_default_host`. -/
def defaultHost : Bytes :=
  let host := getenv "PGHOSTADDR"
  if strempty host then
    let host := getenv "PGHOST"
    if strempty host then ascii "localhost" else host.getD []
  else host.getD []

/-- `nr_postgres_default_port`. -/
def defaultPort : Bytes :=
  let portPathOrId := getenv "PGPORT"
  if strempty portPathOrId then ascii "5432" else portPathOrId.getD []

/-- `nr_postgres_default_database_name`. -/
def defaultDatabaseName : Bytes :=
  let databaseName := getenv "PGDATABASE"
  if strempty databaseName then (getenv "PGUSER").getD [] else databaseName.getD []

/-- The end of the parser, from `fill_defaults` on. -/
def fillDefaults (found : ConnInfo) : ConnInfo :=
  let (host,portPathOrId) :=
    if strempty found.host then
      let host := defaultHost getenv
      if host.map tolower = ascii "localhost" ∧ found.portPathOrId = none then
        (host,some (ascii "/tmp"))
      else (host,found.portPathOrId)
    else if found.host.bind List.head? = some (code '/') then (ascii "localhost",found.host)
    else (found.host.getD [],found.portPathOrId)
  { host := some host
    portPathOrId :=
      some (if strempty portPathOrId then defaultPort getenv else portPathOrId.getD [])
    databaseName :=
      some (if strempty found.databaseName then defaultDatabaseName getenv
        else found.databaseName.getD []) }

end Environment

/-! ### The parser -/

/-- Move the cursor over blanks. -/
def skipBlanks : ℕ → Bytes → ℕ → Except Stop ℕ
  | 0, _, _ => .error .fuel
  | fuel+1, mem, cp => do
    let c ← get mem cp
    if c = 0 then return cp
    else if !isspace c then return cp
    else skipBlanks fuel mem (cp+1)

/-- Move the cursor to the end of a name and over the blanks behind it, which end the name. -/
def readName : ℕ → Bytes → ℕ → Except Stop (Bytes × ℕ)
  | 0, _, _ => .error .fuel
  | fuel+1, mem, cp => do
    let c ← get mem cp
    if c = 0 then return (mem,cp)
    else if c = code '=' then return (mem,cp)
    else if isspace c then
      let mem ← put mem cp [0]
      let cp ← skipBlanks fuel mem (cp+1)
      return (mem,cp)
    else readName fuel mem (cp+1)

/-- Read a bare value with the cursor `cp` and write it with the cursor `cp2`. -/
def readBare : ℕ → Bytes → ℕ → ℕ → Except Stop (Bytes × ℕ)
  | 0, _, _, _ => .error .fuel
  | fuel+1, mem, cp, cp2 => do
    let c ← get mem cp
    if c = 0 then
      let mem ← put mem cp2 [0]
      return (mem,cp)
    else if isspace c then
      let mem ← put mem cp [0]
      let mem ← put mem cp2 [0]
      return (mem,cp+1)
    else if c = code '\\' then
      let c ← get mem (cp+1)
      if c ≠ 0 then
        let mem ← put mem cp2 [c]
        readBare fuel mem (cp+2) (cp2+1)
      else readBare fuel mem (cp+1) cp2
    else
      let mem ← put mem cp2 [c]
      readBare fuel mem (cp+1) (cp2+1)

/-- Read a quoted value from behind its quote; there is no cursor when the quote is not closed. -/
def readQuoted : ℕ → Bytes → ℕ → ℕ → Except Stop (Bytes × Option ℕ)
  | 0, _, _, _ => .error .fuel
  | fuel+1, mem, cp, cp2 => do
    let c ← get mem cp
    if c = 0 then return (mem,none)
    else if c = code '\\' then
      let c ← get mem (cp+1)
      if c ≠ 0 then
        let mem ← put mem cp2 [c]
        readQuoted fuel mem (cp+2) (cp2+1)
      else readQuoted fuel mem (cp+1) cp2
    else if c = code '\'' then
      let mem ← put mem cp2 [0]
      return (mem,some (cp+1))
    else
      let mem ← put mem cp2 [c]
      readQuoted fuel mem (cp+1) (cp2+1)

/-- Pointers to the values found so far. -/
structure Found where
  host : Option ℕ
  portPathOrId : Option ℕ
  databaseName : Option ℕ

/-- Keep the pointer to a value that is wanted: of the host when there is no other, of the user when
there is no database. -/
def Found.note (found : Found) (pname : Bytes) (pval : ℕ) : Found :=
  if pname = ascii "host" ∧ found.host = none then { found with host := some pval }
  else if pname = ascii "hostaddr" then { found with host := some pval }
  else if pname = ascii "port" then { found with portPathOrId := some pval }
  else if pname = ascii "dbname" then { found with databaseName := some pval }
  else if pname = ascii "user" ∧ found.databaseName = none then
    { found with databaseName := some pval }
  else found

/-- The loop over the parameters; an error in one ends it. -/
def parseLoop : ℕ → Bytes → ℕ → Found → Except Stop (Bytes × Found)
  | 0, _, _, _ => .error .fuel
  | fuel+1, mem, cp, found => do
    let c ← get mem cp
    if c = 0 then return (mem,found)
    else if isspace c then parseLoop fuel mem (cp+1) found
    else
      let pname := cp
      let (mem,cp) ← readName (fuel+1) mem cp
      let c ← get mem cp
      if c ≠ code '=' then return (mem,found)
      else
        let mem ← put mem cp [0]
        let cp ← skipBlanks (fuel+1) mem (cp+1)
        let pval := cp
        let c ← get mem cp
        if c ≠ code '\'' then
          let (mem,cp) ← readBare (fuel+1) mem cp cp
          parseLoop fuel mem cp (found.note (stringAt mem pname) pval)
        else
          let (mem,cp) ← readQuoted (fuel+1) mem (cp+1) cp
          match cp with
          | none => return (mem,found)
          | some cp => parseLoop fuel mem cp (found.note (stringAt mem pname) pval)

/-- The strings that the pointers point to. -/
def Found.strings (found : Found) (mem : Bytes) : ConnInfo :=
  ⟨found.host.map (stringAt mem),found.portPathOrId.map (stringAt mem),
    found.databaseName.map (stringAt mem)⟩

/-- `nr_postgres_parse_conn_info`, with what the three arguments point to before. -/
def parseConnInfo (getenv : String → Option Bytes) (connInfo : Option Bytes) (before : ConnInfo) :
    Except Stop ConnInfo :=
  if before ≠ ⟨none,none,none⟩ then .ok before
  else
    match connInfo with
    | none => .ok (fillDefaults getenv before)
    | some connInfo => do
      let (mem,found) ← parseLoop (connInfo.length+2) (connInfo ++ [0]) 0 ⟨none,none,none⟩
      return fillDefaults getenv (found.strings mem)

end Postgres
end PhpAgent
