import Silksocks.Common
import Silksocks.Lib.Program

/-! The database of `db.c`.  Its functions are programs that make ODBC calls.  `sqlinit` connects to
the data source and `sqlclose` disconnects, and each lookup makes a statement of its own, runs a
query and frees the statement. -/

namespace Silksocks

open Program Prog

/-- What `db.c` tells apart of a return code. -/
inductive SqlReturn
  | success
  | successWithInfo
  | noData
  | error
  deriving DecidableEq, Repr

/-- `SQL_SUCCEEDED`. -/
def SqlReturn.succeeded : SqlReturn → Bool
  | success => true
  | successWithInfo => true
  | _ => false

inductive HandleType
  | env
  | dbc
  | stmt
  deriving DecidableEq, Repr

/-- A handle, `none` if it is `NULL`. -/
abbrev Handle := Option Nat

/-- The value bound to a parameter of a query. -/
inductive SqlParam
  | char (str : List UInt8)
  | ulong (n : UInt32)
  | ushort (n : UInt16)
  deriving DecidableEq, Repr

/-- What is done to a statement before a row is fetched. -/
inductive StmtOp
  | bindCol (col : Nat)
  | bindParameter (param : Nat) (value : SqlParam)
  | execDirect (sql : String)
  deriving DecidableEq, Repr

/-- The ODBC calls of `db.c`.  `extractError` stands for the calls of `extract_error`, and `fault` is
a step that C leaves undefined. -/
inductive OdbcCall
  | allocEnv
  | setEnvAttr (henv : Handle)
  | allocDbc (henv : Handle)
  | setConnectAttr (hdbc : Handle)
  | connect (hdbc : Handle) (datasource : List UInt8) (username password : Option (List UInt8))
  | disconnect (hdbc : Handle)
  | allocStmt (hdbc : Handle)
  | stmtOp (stmt : Handle) (op : StmtOp)
  | fetch (stmt : Handle)
  | freeHandle (type : HandleType) (handle : Handle)
  | extractError (type : HandleType) (handle : Handle)
  | fault
  deriving DecidableEq, Repr

/-- What a call returns.  The calls that allocate store a handle, and a fetch fills the arrays of 256
bytes that are bound to the columns. -/
@[reducible] def OdbcCall.Result : OdbcCall → Type
  | allocEnv => SqlReturn × Handle
  | setEnvAttr _ => SqlReturn
  | allocDbc _ => SqlReturn × Handle
  | setConnectAttr _ => SqlReturn
  | connect _ _ _ _ => SqlReturn
  | disconnect _ => SqlReturn
  | allocStmt _ => SqlReturn × Handle
  | stmtOp _ _ => SqlReturn
  | fetch _ => SqlReturn × (Nat → List UInt8)
  | freeHandle _ _ => SqlReturn
  | extractError _ _ => Unit
  | fault => Empty

abbrev Odbc := Prog OdbcCall.Result

abbrev OdbcEvent := Event OdbcCall.Result

namespace Db

def call (c : OdbcCall) : Odbc c.Result := .call c .done

/-- `henv` and `hdbc`. -/
structure Globals where
  henv : Handle
  hdbc : Handle
  deriving DecidableEq, Repr

/-- `sqlclose`. -/
def sqlclose (g : Globals) : Odbc Globals := do
  let g ← if g.hdbc.isSome then do
      let _ ← call (.disconnect g.hdbc)
      let _ ← call (.freeHandle .dbc g.hdbc)
      pure { g with hdbc := none }
    else pure g
  if g.henv.isSome then
    let _ ← call (.freeHandle .env g.henv)
    return { g with henv := none }
  else return g

/-- `strtok` at commas: the token, `none` for `NULL`, and what is behind it. -/
def strtok (s : List UInt8) : Option (List UInt8) × List UInt8 :=
  match s.dropWhile (· = 44) with
  | [] => (none, [])
  | c :: s => (some ((c :: s).takeWhile (· ≠ 44)), ((c :: s).dropWhile (· ≠ 44)).drop 1)

/-- The first part of `sqlinit`, which makes an environment.  The flag says whether to go on. -/
def openEnv (g : Globals) : Odbc (Bool × Globals) :=
  if g.henv.isSome then return (true, g)
  else do
    let (retcode, henv) ← call .allocEnv
    if henv.isNone || !retcode.succeeded then return (false, { g with henv := none })
    let retcode ← call (.setEnvAttr henv)
    return (retcode.succeeded, { g with henv })

/-- The second part of `sqlinit`, which makes a connection handle. -/
def openDbc (g : Globals) : Odbc (Bool × Globals) :=
  if g.hdbc.isSome then return (true, g)
  else do
    let (retcode, hdbc) ← call (.allocDbc g.henv)
    if hdbc.isNone || !retcode.succeeded then
      let _ ← call (.freeHandle .env g.henv)
      return (false, ⟨none, none⟩)
    let _ ← call (.setConnectAttr hdbc)
    return (true, { g with hdbc })

/-- The last part of `sqlinit`, which connects to the data source that `s` names. -/
def openSource (g : Globals) (s : List UInt8) : Odbc (Int × Globals) :=
  let (datasource, rest) := strtok (cstr s)
  let (username, rest) := strtok rest
  let (password, _) := strtok rest
  -- `strlen(datasource)`
  match datasource with
  | none => .call .fault Empty.elim
  | some datasource => do
    let retcode ← call (.connect g.hdbc datasource username password)
    if retcode.succeeded then return (0, g)
    let _ ← call (.freeHandle .dbc g.hdbc)
    let _ ← call (.freeHandle .env g.henv)
    return (-1, ⟨none, none⟩)

/-- The start of `sqlinit`, which closes what is open. -/
def closeOpen (g : Globals) : Odbc Globals :=
  if g.hdbc.isSome || g.henv.isSome then sqlclose g else return g

/-- `sqlinit`, with `none` for `NULL`. -/
def sqlinit (g : Globals) : Option (List UInt8) → Odbc (Int × Globals)
  | none => return (-1, g)
  | some s => do
    let g ← closeOpen g
    let (ok, g) ← openEnv g
    if !ok then return (-1, g)
    let (ok, g) ← openDbc g
    if !ok then return (-1, g)
    openSource g s

/-- The calls that prepare a statement, up to the first that fails. -/
def stmtOps (mystmt : Handle) : List StmtOp → Odbc Bool
  | [] => return true
  | op :: ops => do
    let ret ← call (.stmtOp mystmt op)
    if ret.succeeded then stmtOps mystmt ops
    else
      call (.extractError .stmt mystmt)
      return false

/-- What both lookups do with their statement: prepare it, fetch a row, and free it in any case. -/
def query (mystmt : Handle) (ops : List StmtOp) (cols : List Nat) :
    Odbc (Option (List (List UInt8))) := do
  let ok ← stmtOps mystmt ops
  if !ok then
    let _ ← call (.freeHandle .stmt mystmt)
    return none
  let (ret, row) ← call (.fetch mystmt)
  if ret.succeeded then
    let _ ← call (.freeHandle .stmt mystmt)
    return some (cols.map fun col => cstr (row col))
  else
    if ret ≠ .noData then
      call (.extractError .stmt mystmt)
    let _ ← call (.freeHandle .stmt mystmt)
    return none

/-- `sqlget_apppasswd`: the password. -/
def sqlgetApppasswd (g : Globals) (appuser : List UInt8) : Odbc (Option (List (List UInt8))) :=
  if g.henv.isNone || g.hdbc.isNone then return none
  else do
    let (ret, mystmt) ← call (.allocStmt g.hdbc)
    if !ret.succeeded then
      call (.extractError .stmt mystmt)
      let _ ← call (.freeHandle .stmt mystmt)
      return none
    query mystmt [.bindCol 1, .bindParameter 1 (.char (cstr appuser)),
      .execDirect "SELECT pass FROM app WHERE user = ?"] [1]

/-- `sqlget_proxycreds`: the user and the password.  Unlike its sibling it has no statement to free
where none was made. -/
def sqlgetProxycreds (g : Globals) (ip : UInt32) (port : UInt16) (status : UInt32) :
    Odbc (Option (List (List UInt8))) :=
  if g.henv.isNone || g.hdbc.isNone then return none
  else do
    let (ret, mystmt) ← call (.allocStmt g.hdbc)
    if !ret.succeeded then
      call (.extractError .stmt mystmt)
      return none
    query mystmt [.bindCol 1, .bindCol 2, .bindParameter 1 (.ulong ip),
      .bindParameter 2 (.ushort port), .bindParameter 3 (.ulong status),
      .execDirect "SELECT user, pass FROM proxy WHERE ip = ? and port = ? and status = ?"] [1, 2]

end Db

end Silksocks
