import Silksocks.Db
import Silksocks.Lib.Lts

/-! The handles of the database.  ODBC demands that a handle is used while it is allocated, that it is
freed once, and that nothing is freed before what belongs to it.  `sqlinit`, `sqlclose` and any
number of lookups side by side keep to this, and the lookups leave no statement behind. -/

namespace Silksocks

open Program Prog Contract

namespace Db

/-- The handles that are allocated: the environment, the connection and whether it is connected, and
the statement of one lookup. -/
structure Handles where
  env : Handle
  dbc : Handle
  connected : Bool
  stmt : Handle
  deriving DecidableEq, Repr

namespace Handles

/-- What ODBC demands of a call. -/
def Demand (s : Handles) : OdbcCall → Prop
  | .allocEnv => s.env = none
  | .setEnvAttr henv => henv.isSome ∧ henv = s.env ∧ s.dbc = none
  | .allocDbc henv => henv.isSome ∧ henv = s.env ∧ s.dbc = none
  | .setConnectAttr hdbc => hdbc.isSome ∧ hdbc = s.dbc ∧ s.connected = false
  | .connect hdbc _ _ _ => hdbc.isSome ∧ hdbc = s.dbc ∧ s.connected = false
  | .disconnect hdbc => hdbc.isSome ∧ hdbc = s.dbc ∧ s.connected = true ∧ s.stmt = none
  | .allocStmt hdbc => hdbc.isSome ∧ hdbc = s.dbc ∧ s.connected = true ∧ s.stmt = none
  | .stmtOp stmt _ => stmt.isSome ∧ stmt = s.stmt
  | .fetch stmt => stmt.isSome ∧ stmt = s.stmt
  | .freeHandle .env handle => handle.isSome ∧ handle = s.env ∧ s.dbc = none
  | .freeHandle .dbc handle => handle.isSome ∧ handle = s.dbc ∧ s.connected = false ∧ s.stmt = none
  -- the handle of a statement that was not made is `NULL`, which is refused without harm
  | .freeHandle .stmt handle => handle = s.stmt
  | .extractError type handle => type = .stmt ∧ handle = s.stmt
  | .fault => False

/-- What `db.c` relies on without looking at it: a call that allocates succeeds if and only if it
stores a handle, a connection with no transaction disconnects, a handle that is allocated can be
freed, and a fetch ends each column with a NUL. -/
def Assume (_ : Handles) : OdbcEvent → Prop
  | ⟨.allocEnv, r⟩ => r.1.succeeded = r.2.isSome
  | ⟨.allocDbc _, r⟩ => r.1.succeeded = r.2.isSome
  | ⟨.allocStmt _, r⟩ => r.1.succeeded = r.2.isSome
  | ⟨.disconnect _, r⟩ => r.succeeded = true
  | ⟨.freeHandle _ handle, r⟩ => r.succeeded = handle.isSome
  | ⟨.fetch _, r⟩ => r.1.succeeded = true → ∀ col, (r.2 col).length = 256 ∧ 0 ∈ r.2 col
  | _ => True

/-- The handles after a call.  A call that fails leaves them as they are. -/
def next (s : Handles) : OdbcEvent → Handles
  | ⟨.allocEnv, r⟩ => { s with env := r.2 }
  | ⟨.allocDbc _, r⟩ => { s with dbc := r.2, connected := false }
  | ⟨.connect _ _ _ _, r⟩ => { s with connected := r.succeeded }
  | ⟨.disconnect _, r⟩ => { s with connected := s.connected && !r.succeeded }
  | ⟨.allocStmt _, r⟩ => { s with stmt := r.2 }
  | ⟨.freeHandle .env _, r⟩ => { s with env := if r.succeeded then none else s.env }
  | ⟨.freeHandle .dbc _, r⟩ => { s with dbc := if r.succeeded then none else s.dbc }
  | ⟨.freeHandle .stmt _, r⟩ => { s with stmt := if r.succeeded then none else s.stmt }
  | _ => s

end Handles

def odbc : Contract Handles OdbcCall.Result := ⟨Handles.Demand, Handles.Assume, Handles.next⟩

/-- The handles that `db.c` keeps between its calls: those in its globals, connected. -/
def Globals.handles (g : Globals) : Handles := ⟨g.henv, g.hdbc, g.hdbc.isSome, none⟩

/-- The connection belongs to an environment. -/
def Globals.WF (g : Globals) : Prop := g.hdbc.isSome = true → g.henv.isSome = true

section Specs

variable {α : Type} {g : Globals} {s : Handles} {Q : Handles → α → Prop}

/-! ### The calls that give handles back -/

section Frees

variable {handle : Handle} {k : SqlReturn → Odbc α}

theorem disconnect_wp (hsome : handle.isSome = true) (hdbc : handle = s.dbc)
    (hconnected : s.connected = true) (hstmt : s.stmt = none)
    (hk : ∀ r, odbc.wp Q { s with connected := false } (k r)) :
    odbc.wp Q s (.call (.disconnect handle) k) := by
  refine ⟨⟨hsome, hdbc, hconnected, hstmt⟩, fun r (hr : r.succeeded = true) => ?_⟩
  have hnext : odbc.next s ⟨.disconnect handle, r⟩ = { s with connected := false } := by
    simp [odbc, Handles.next, hr]
  rw [hnext]
  exact hk r

theorem freeDbc_wp (hsome : handle.isSome = true) (hdbc : handle = s.dbc)
    (hconnected : s.connected = false) (hstmt : s.stmt = none)
    (hk : ∀ r, odbc.wp Q { s with dbc := none } (k r)) :
    odbc.wp Q s (.call (.freeHandle .dbc handle) k) := by
  refine ⟨⟨hsome, hdbc, hconnected, hstmt⟩, fun r (hr : r.succeeded = handle.isSome) => ?_⟩
  have hnext : odbc.next s ⟨.freeHandle .dbc handle, r⟩ = { s with dbc := none } := by
    simp [odbc, Handles.next, hr, hsome]
  rw [hnext]
  exact hk r

theorem freeEnv_wp (hsome : handle.isSome = true) (henv : handle = s.env) (hdbc : s.dbc = none)
    (hk : ∀ r, odbc.wp Q { s with env := none } (k r)) :
    odbc.wp Q s (.call (.freeHandle .env handle) k) := by
  refine ⟨⟨hsome, henv, hdbc⟩, fun r (hr : r.succeeded = handle.isSome) => ?_⟩
  have hnext : odbc.next s ⟨.freeHandle .env handle, r⟩ = { s with env := none } := by
    simp [odbc, Handles.next, hr, hsome]
  rw [hnext]
  exact hk r

theorem freeStmt_wp (hstmt : handle = s.stmt)
    (hk : ∀ r, odbc.wp Q { s with stmt := none } (k r)) :
    odbc.wp Q s (.call (.freeHandle .stmt handle) k) := by
  refine ⟨hstmt, fun r (hr : r.succeeded = handle.isSome) => ?_⟩
  have hnext : odbc.next s ⟨.freeHandle .stmt handle, r⟩ = { s with stmt := none } := by
    cases handle <;> simp [odbc, Handles.next, hr, ← hstmt]
  rw [hnext]
  exact hk r

end Frees

/-! ### `sqlclose` and `sqlinit` -/

/-- `sqlclose` frees what there is. -/
theorem sqlclose_wp (h : g.WF) :
    odbc.wp (fun s' g' => g' = ⟨none, none⟩ ∧ s' = g'.handles) g.handles (sqlclose g) := by
  obtain ⟨henv, hdbc⟩ := g
  cases hdbc with
  | none =>
    cases henv with
    | none => exact ⟨rfl, rfl⟩
    | some henv => exact freeEnv_wp rfl rfl rfl fun _ => ⟨rfl, rfl⟩
  | some hdbc =>
    cases henv with
    | none => cases h rfl
    | some henv =>
      exact disconnect_wp rfl rfl rfl rfl fun _ => freeDbc_wp rfl rfl rfl rfl fun _ =>
        freeEnv_wp rfl rfl rfl fun _ => ⟨rfl, rfl⟩

/-- `sqlclose` does not look at what `SQLDisconnect` returns: where that fails, it frees a connection
that is still open. -/
theorem sqlclose_undisconnected (hsome : g.hdbc.isSome = true) {r : SqlReturn}
    (hr : r.succeeded = false) {c : OdbcCall} {next : c.Result → Odbc Globals}
    (hrun : Runs (sqlclose g) [⟨.disconnect g.hdbc, r⟩] (.call c next)) :
    ¬ (odbc.after g.handles [⟨.disconnect g.hdbc, r⟩]).Demand c := by
  obtain ⟨henv, hdbc⟩ := g
  obtain ⟨hdbc, rfl⟩ := Option.isSome_iff_exists.mp hsome
  cases hrun with
  | cons hrest =>
    cases hrest
    have hconnected : (odbc.after (Globals.handles ⟨henv, some hdbc⟩)
        [⟨.disconnect (some hdbc), r⟩]).connected = true := by
      simp [Contract.after, odbc, Handles.next, Globals.handles, hr]
    exact fun hdemand => Bool.false_ne_true (hdemand.2.2.1.symm.trans hconnected)

theorem openEnv_wp : odbc.wp (fun s' r => r.2.hdbc = none ∧ s' = r.2.handles ∧
      (r.1 = true → r.2.henv.isSome = true)) (Globals.handles ⟨none, none⟩)
    (openEnv ⟨none, none⟩) := by
  refine ⟨rfl, fun ⟨retcode, henv⟩ hr => ?_⟩
  cases henv with
  | none => exact ⟨rfl, rfl, nofun⟩
  | some henv =>
    cases retcode with
    | success | successWithInfo => exact ⟨⟨rfl, rfl, rfl⟩, fun _ _ => ⟨rfl, rfl, fun _ => rfl⟩⟩
    | noData | error => cases hr

/-- The handles where `sqlinit` connects. -/
def opened (g : Globals) : Handles := ⟨g.henv, g.hdbc, false, none⟩

theorem openDbc_wp (henv : Nat) : odbc.wp (fun s' r => if r.1 then
      r.2.henv.isSome = true ∧ r.2.hdbc.isSome = true ∧ s' = opened r.2
      else r.2 = ⟨none, none⟩ ∧ s' = r.2.handles)
    (Globals.handles ⟨some henv, none⟩) (openDbc ⟨some henv, none⟩) := by
  refine ⟨⟨rfl, rfl, rfl⟩, fun ⟨retcode, hdbc⟩ hr => ?_⟩
  cases hdbc with
  | none => exact freeEnv_wp rfl rfl rfl fun _ => ⟨rfl, rfl⟩
  | some hdbc =>
    cases retcode with
    | success | successWithInfo => exact ⟨⟨rfl, rfl, rfl⟩, fun _ _ => ⟨rfl, rfl, rfl⟩⟩
    | noData | error => cases hr

theorem strtok_isSome {s : List UInt8} : (strtok s).1.isSome = true ↔ ∃ c ∈ s, c ≠ 44 := by
  rw [strtok]
  split
  · rename_i hnil
    simpa [List.dropWhile_eq_nil_iff] using hnil
  · rename_i c rest hcons
    refine iff_of_true rfl ?_
    by_contra hno
    have hnil : s.dropWhile (· = 44) = [] := by
      simpa [List.dropWhile_eq_nil_iff] using hno
    cases hcons.symm.trans hnil

theorem openSource_wp {str : List UInt8} (hstr : ∃ c ∈ cstr str, c ≠ 44)
    (henv : g.henv.isSome = true) (hdbc : g.hdbc.isSome = true) :
    odbc.wp (fun s' r => s' = r.2.handles ∧ r.2.WF ∧ (r.1 = 0 ↔ r.2.hdbc.isSome = true)) (opened g)
      (openSource g str) := by
  obtain ⟨datasource, hsource⟩ := Option.isSome_iff_exists.mp (strtok_isSome.mpr hstr)
  simp only [openSource, hsource]
  refine ⟨⟨hdbc, rfl, rfl⟩, fun retcode _ => ?_⟩
  cases retcode with
  | success | successWithInfo =>
    refine ⟨?_, fun _ => henv, iff_of_true rfl hdbc⟩
    rw [Globals.handles, hdbc]
    rfl
  | noData | error =>
    exact freeDbc_wp hdbc rfl rfl rfl fun _ => freeEnv_wp henv rfl rfl fun _ =>
      ⟨rfl, nofun, iff_of_false (by decide) (by decide)⟩

/-- `sqlinit` with a line that names a data source leaves nothing allocated but the globals, and
returns 0 if and only if it has connected. -/
theorem sqlinit_wp (h : g.WF) {str : List UInt8} (hstr : ∃ c ∈ cstr str, c ≠ 44) :
    odbc.wp (fun s' r => s' = r.2.handles ∧ r.2.WF ∧ (r.1 = 0 ↔ r.2.hdbc.isSome = true)) g.handles
      (sqlinit g (some str)) := by
  have hclosed : odbc.wp (fun s' g' => g' = ⟨none, none⟩ ∧ s' = g'.handles) g.handles
      (closeOpen g) := by
    unfold closeOpen
    split
    · exact sqlclose_wp h
    · rename_i hnone
      obtain ⟨henv, hdbc⟩ := g
      obtain ⟨rfl, rfl⟩ : hdbc = none ∧ henv = none := by simpa using hnone
      exact ⟨rfl, rfl⟩
  unfold sqlinit
  refine wp_bind.mpr (wp_mono hclosed ?_)
  rintro _ _ ⟨rfl, rfl⟩
  refine wp_bind.mpr (wp_mono openEnv_wp ?_)
  rintro _ ⟨ok, henv, hdbc⟩ ⟨hnone, rfl, hopen⟩
  obtain rfl : hdbc = none := hnone
  cases ok with
  | false => exact ⟨rfl, nofun, iff_of_false (show (-1 : Int) ≠ 0 by decide) nofun⟩
  | true =>
    obtain ⟨henv, rfl⟩ := Option.isSome_iff_exists.mp (hopen rfl)
    refine wp_bind.mpr (wp_mono (openDbc_wp henv) ?_)
    rintro s' ⟨ok, g'⟩ hg
    cases ok with
    | false =>
      obtain ⟨rfl, rfl⟩ : g' = ⟨none, none⟩ ∧ s' = g'.handles := hg
      exact ⟨rfl, nofun, iff_of_false (by decide) nofun⟩
    | true =>
      obtain ⟨henv, hdbc, rfl⟩ : g'.henv.isSome = true ∧ g'.hdbc.isSome = true ∧ s' = opened g' := hg
      exact openSource_wp hstr henv hdbc

/-! ### Lookups -/

/-- What a lookup of `n` columns may find: strings that fit their arrays. -/
def Fetched (n : Nat) (r : Option (List (List UInt8))) : Prop :=
  ∀ strs ∈ r, strs.length = n ∧ ∀ str ∈ strs, str.length < 256 ∧ 0 ∉ str

theorem stmtOps_wp {mystmt : Handle} (hsome : mystmt.isSome = true) (hstmt : mystmt = s.stmt)
    (ops : List StmtOp) : odbc.wp (fun s' _ => s' = s) s (stmtOps mystmt ops) := by
  induction ops with
  | nil => exact rfl
  | cons op ops ih =>
    refine ⟨⟨hsome, hstmt⟩, fun ret _ => ?_⟩
    cases ret with
    | success | successWithInfo => exact ih
    | noData | error => exact ⟨⟨rfl, hstmt⟩, fun _ _ => rfl⟩

theorem cstr_fits {buf : List UInt8} (h : buf.length = 256 ∧ 0 ∈ buf) :
    (cstr buf).length < 256 ∧ 0 ∉ cstr buf := by
  refine ⟨?_, fun hmem => ?_⟩
  · refine h.1 ▸ lt_of_le_of_ne (List.takeWhile_prefix _).length_le fun hlen => ?_
    have hall := (List.takeWhile_prefix (fun c : UInt8 => c ≠ 0) (l := buf)).eq_of_length hlen
    have := List.takeWhile_eq_self_iff.mp hall 0 h.2
    simp at this
  · simpa using List.mem_takeWhile_imp hmem

/-- A query frees its statement. -/
theorem query_wp {mystmt : Handle} (hsome : mystmt.isSome = true) (hstmt : mystmt = s.stmt)
    (ops : List StmtOp) (cols : List Nat) :
    odbc.wp (fun s' r => s' = { s with stmt := none } ∧ Fetched cols.length r) s
      (query mystmt ops cols) := by
  refine wp_bind.mpr (wp_mono (stmtOps_wp hsome hstmt ops) ?_)
  rintro _ ok rfl
  cases ok with
  | false => exact freeStmt_wp hstmt fun _ => ⟨rfl, nofun⟩
  | true =>
    refine ⟨⟨hsome, hstmt⟩, fun ⟨ret, row⟩ hrow => ?_⟩
    cases ret with
    | success | successWithInfo =>
      refine freeStmt_wp hstmt fun _ => ⟨rfl, ?_⟩
      rintro strs ⟨⟩
      refine ⟨List.length_map _, List.forall_mem_map.mpr fun col _ => cstr_fits (hrow rfl col)⟩
    | noData => exact freeStmt_wp hstmt fun _ => ⟨rfl, nofun⟩
    | error => exact ⟨⟨rfl, hstmt⟩, fun _ _ => freeStmt_wp hstmt fun _ => ⟨rfl, nofun⟩⟩

/-- A lookup leaves the handles as they were. -/
theorem sqlgetApppasswd_wp (appuser : List UInt8) :
    odbc.wp (fun s' r => s' = g.handles ∧ Fetched 1 r) g.handles (sqlgetApppasswd g appuser) := by
  obtain ⟨henv, hdbc⟩ := g
  cases henv with
  | none => exact ⟨rfl, nofun⟩
  | some henv =>
    cases hdbc with
    | none => exact ⟨rfl, nofun⟩
    | some hdbc =>
      refine ⟨⟨rfl, rfl, rfl, rfl⟩, fun ⟨ret, mystmt⟩ hr => ?_⟩
      cases ret with
      | success | successWithInfo => exact query_wp (s := ⟨_, _, _, mystmt⟩) hr.symm rfl _ [1]
      | noData | error => exact ⟨⟨rfl, rfl⟩, fun _ _ => freeStmt_wp rfl fun _ => ⟨rfl, nofun⟩⟩

theorem sqlgetProxycreds_wp (ip : UInt32) (port : UInt16) (status : UInt32) :
    odbc.wp (fun s' r => s' = g.handles ∧ Fetched 2 r) g.handles
      (sqlgetProxycreds g ip port status) := by
  obtain ⟨henv, hdbc⟩ := g
  cases henv with
  | none => exact ⟨rfl, nofun⟩
  | some henv =>
    cases hdbc with
    | none => exact ⟨rfl, nofun⟩
    | some hdbc =>
      refine ⟨⟨rfl, rfl, rfl, rfl⟩, fun ⟨ret, mystmt⟩ hr => ?_⟩
      have hnone : ret.succeeded = false → mystmt = none := fun hret =>
        Option.isNone_iff_eq_none.mp (by simpa [hret] using hr.symm)
      cases ret with
      | success | successWithInfo => exact query_wp (s := ⟨_, _, _, mystmt⟩) hr.symm rfl _ [1, 2]
      | noData | error =>
        obtain rfl := hnone rfl
        exact ⟨⟨rfl, rfl⟩, fun _ _ => ⟨rfl, nofun⟩⟩

/-- A call on the statement of a lookup. -/
def Statement : OdbcCall → Prop
  | .allocStmt _ => True
  | .stmtOp _ _ => True
  | .fetch _ => True
  | .freeHandle type _ => type = .stmt
  | .extractError _ _ => True
  | _ => False

theorem Statement.next {e : OdbcEvent} (h : Statement e.call) (s : Handles) :
    s.next e = { s with stmt := (s.next e).stmt } := by
  obtain ⟨c, r⟩ := e
  cases c with
  | freeHandle type handle =>
    obtain rfl : type = .stmt := h
    rfl
  | allocStmt | stmtOp | fetch | extractError => rfl
  | _ => exact h.elim

theorem stmtOps_all (mystmt : Handle) (ops : List StmtOp) : (stmtOps mystmt ops).All Statement := by
  induction ops with
  | nil => trivial
  | cons op ops ih =>
    refine ⟨trivial, fun ret => ?_⟩
    cases ret with
    | success | successWithInfo => exact ih
    | noData | error => exact ⟨trivial, fun _ => trivial⟩

theorem query_all (mystmt : Handle) (ops : List StmtOp) (cols : List Nat) :
    (query mystmt ops cols).All Statement := by
  refine (stmtOps_all mystmt ops).bind fun ok => ?_
  cases ok with
  | false => exact ⟨rfl, fun _ => trivial⟩
  | true =>
    refine ⟨trivial, fun ⟨ret, row⟩ => ?_⟩
    cases ret with
    | success | successWithInfo | noData => exact ⟨rfl, fun _ => trivial⟩
    | error => exact ⟨trivial, fun _ => ⟨rfl, fun _ => trivial⟩⟩

theorem sqlgetApppasswd_all (g : Globals) (appuser : List UInt8) :
    (sqlgetApppasswd g appuser).All Statement := by
  unfold sqlgetApppasswd
  split
  · trivial
  · refine ⟨trivial, fun ⟨ret, mystmt⟩ => ?_⟩
    cases ret with
    | success | successWithInfo => exact query_all ..
    | noData | error => exact ⟨trivial, fun _ => ⟨rfl, fun _ => trivial⟩⟩

theorem sqlgetProxycreds_all (g : Globals) (ip : UInt32) (port : UInt16) (status : UInt32) :
    (sqlgetProxycreds g ip port status).All Statement := by
  unfold sqlgetProxycreds
  split
  · trivial
  · refine ⟨trivial, fun ⟨ret, mystmt⟩ => ?_⟩
    cases ret with
    | success | successWithInfo => exact query_all ..
    | noData | error => exact ⟨trivial, fun _ => trivial⟩

end Specs

/-! ### Lookups side by side -/

/-- The lookups that sessions make. -/
inductive Query
  | app (appuser : List UInt8)
  | proxy (ip : UInt32) (port : UInt16) (status : UInt32)
  deriving DecidableEq, Repr

def Query.prog (g : Globals) : Query → Odbc (Option (List (List UInt8)))
  | app appuser => sqlgetApppasswd g appuser
  | proxy ip port status => sqlgetProxycreds g ip port status

def Query.columns : Query → Nat
  | app _ => 1
  | proxy _ _ _ => 2

/-- A lookup, as far as it has come, with the statement that it has allocated. -/
structure Lookup where
  query : Query
  prog : Odbc (Option (List (List UInt8)))
  stmt : Handle

/-- The database of a process: its globals, the handles that are allocated beside statements, and
what its threads look up. -/
structure State where
  globals : Globals
  handles : Handles
  lookups : Nat → Option Lookup

/-- The handles as the lookup with the statement `stmt` sees them. -/
def State.seen (s : State) (stmt : Handle) : Handles := { s.handles with stmt }

inductive Act
  | sqlinit (t : List OdbcEvent)
  | sqlclose (t : List OdbcEvent)
  | start (i : Nat) (q : Query)
  | call (i : Nat) (e : OdbcEvent)
  | finish (i : Nat) (r : Option (List (List UInt8)))

/-- `sqlinit` and `sqlclose` are called while nothing is looked up.  A statement that is allocated is
not one that another lookup has. -/
inductive Step : State → Act → State → Prop
  | sqlinit {s : State} {line : List UInt8} {t : List OdbcEvent} {st : Int} {g : Globals}
    (hidle : ∀ i, s.lookups i = none) (hline : ∃ c ∈ cstr line, c ≠ 44)
    (hrun : Runs (sqlinit s.globals (some line)) t (.done (st, g)))
    (ht : odbc.Assumed s.handles t) :
    Step s (.sqlinit t) { s with globals := g, handles := odbc.after s.handles t }
  | sqlclose {s : State} {t : List OdbcEvent} {g : Globals} (hidle : ∀ i, s.lookups i = none)
    (hrun : Runs (sqlclose s.globals) t (.done g)) (ht : odbc.Assumed s.handles t) :
    Step s (.sqlclose t) { s with globals := g, handles := odbc.after s.handles t }
  | start {s : State} {i : Nat} (q : Query) (hidle : s.lookups i = none) :
    Step s (.start i q)
      { s with lookups := Function.update s.lookups i (some ⟨q, q.prog s.globals, none⟩) }
  | call {s : State} {i : Nat} {q : Query} {c : OdbcCall} {stmt : Handle}
    {next : c.Result → Odbc (Option (List (List UInt8)))} {r : c.Result}
    (hl : s.lookups i = some ⟨q, .call c next, stmt⟩)
    (hr : (s.seen stmt).Assume ⟨c, r⟩)
    (hfresh : ∀ j l, j ≠ i → s.lookups j = some l → l.stmt.isSome = true →
      ((s.seen stmt).next ⟨c, r⟩).stmt = stmt ∨ ((s.seen stmt).next ⟨c, r⟩).stmt ≠ l.stmt) :
    Step s (.call i ⟨c, r⟩)
      { s with
        handles := { (s.seen stmt).next ⟨c, r⟩ with stmt := none }
        lookups := Function.update s.lookups i
          (some ⟨q, next r, ((s.seen stmt).next ⟨c, r⟩).stmt⟩) }
  | finish {s : State} {i : Nat} {q : Query} {r : Option (List (List UInt8))} {stmt : Handle}
    (hl : s.lookups i = some ⟨q, .done r, stmt⟩) :
    Step s (.finish i r) { s with lookups := Function.update s.lookups i none }

/-- The process when it starts. -/
def start : State := ⟨⟨none, none⟩, ⟨none, none, false, none⟩, fun _ => none⟩

/-- What holds of a lookup at every point. -/
structure LookupKept (g : Globals) (l : Lookup) : Prop where
  wp : odbc.wp (fun s' r => s' = g.handles ∧ Fetched l.query.columns r)
    { g.handles with stmt := l.stmt } l.prog
  all : l.prog.All Statement

structure StateKept (s : State) : Prop where
  wf : s.globals.WF
  handles : s.handles = s.globals.handles
  lookup : ∀ i l, s.lookups i = some l → LookupKept s.globals l
  distinct : ∀ i j l l', s.lookups i = some l → s.lookups j = some l' → l.stmt.isSome = true →
    l.stmt = l'.stmt → i = j

theorem Query.kept (g : Globals) (q : Query) : LookupKept g ⟨q, q.prog g, none⟩ := by
  cases q with
  | app appuser => exact ⟨sqlgetApppasswd_wp appuser, sqlgetApppasswd_all g appuser⟩
  | proxy ip port status =>
    exact ⟨sqlgetProxycreds_wp ip port status, sqlgetProxycreds_all g ip port status⟩

section Runs

variable {s s' : State} {l : Act} {ls : List Act}

theorem StateKept.idle {g : Globals} {handles : Handles} (hidle : ∀ i, s.lookups i = none)
    (hs : handles = g.handles) (hg : g.WF) : StateKept { s with globals := g, handles } := by
  refine ⟨hg, hs, fun i l hl => ?_, fun i j l l' hl => ?_⟩ <;> cases (hidle i).symm.trans hl

/-- One lookup goes on, while the others stay as they are. -/
theorem StateKept.update (hk : StateKept s) (i : Nat) {x : Option Lookup}
    (hx : ∀ l, x = some l → LookupKept s.globals l)
    (hfresh : ∀ l, x = some l → l.stmt.isSome = true →
      ∀ j l', j ≠ i → s.lookups j = some l' → l.stmt ≠ l'.stmt) :
    StateKept { s with lookups := Function.update s.lookups i x } := by
  refine ⟨hk.wf, hk.handles, fun j l hl => ?_, fun j k l l' hl hl' hsome heq => ?_⟩
  · by_cases hj : j = i
    · subst hj
      exact hx l (by simpa using hl)
    · exact hk.lookup j l (by simpa [hj] using hl)
  · by_cases hj : j = i <;> by_cases hk' : k = i
    · exact hj.trans hk'.symm
    · subst hj
      simp only [Function.update_self] at hl
      exact absurd heq (hfresh l hl hsome k l' hk' (by simpa [hk'] using hl'))
    · subst hk'
      simp only [Function.update_self] at hl'
      exact absurd heq.symm (hfresh l' hl' (heq ▸ hsome) j l hj (by simpa [hj] using hl))
    · exact hk.distinct j k l l' (by simpa [hj] using hl) (by simpa [hk'] using hl') hsome heq

theorem StateKept.step (hk : StateKept s) (hs : Step s l s') : StateKept s' := by
  cases hs with
  | sqlinit hidle hline hrun ht =>
    have hwp := wp_runs (sqlinit_wp hk.wf hline) hrun (hk.handles ▸ ht)
    exact .idle hidle (hk.handles ▸ hwp.1) hwp.2.1
  | sqlclose hidle hrun ht =>
    obtain ⟨rfl, hwp⟩ := wp_runs (sqlclose_wp hk.wf) hrun (hk.handles ▸ ht)
    exact .idle hidle (hk.handles ▸ hwp) nofun
  | @start i q hidle =>
    refine hk.update i ?_ ?_
    · rintro l ⟨⟩
      exact q.kept s.globals
    · rintro l ⟨⟩ hsome
      cases hsome
  | @call i q c stmt next r hl hr hfresh =>
    obtain ⟨hwp, hall⟩ := hk.lookup i _ hl
    have hseen : s.seen stmt = { s.globals.handles with stmt } := by rw [State.seen, hk.handles]
    have hnext := Statement.next (e := ⟨c, r⟩) hall.1 (s.seen stmt)
    have hhandles : { (s.seen stmt).next ⟨c, r⟩ with stmt := none } = s.handles := by
      rw [hnext, State.seen, hk.handles]
      rfl
    rw [hhandles]
    refine hk.update i ?_ ?_
    · rintro l ⟨⟩
      refine ⟨?_, hall.2 r⟩
      have hafter := hwp.2 r (hseen ▸ hr)
      rw [← hseen] at hafter
      have heq : (s.seen stmt).next ⟨c, r⟩ =
          { s.globals.handles with stmt := ((s.seen stmt).next ⟨c, r⟩).stmt } := by
        rw [hnext, hseen]
      rw [← heq]
      exact hafter
    · rintro l ⟨⟩ hsome j l' hj hl' heq
      rcases hfresh j l' hj hl' (heq ▸ hsome) with hold | hnew
      · exact hj (hk.distinct i j _ l' hl hl' (hold ▸ hsome) (hold.symm.trans heq)).symm
      · exact hnew heq
  | finish hl => exact hk.update _ nofun nofun

theorem run_kept (h : Lts.Run Step start ls s) : StateKept s := by
  refine h.invariant (I := fun _ s => StateKept s) ⟨nofun, rfl, nofun, nofun⟩ ?_
  exact fun _ _ _ _ _ hk hs => hk.step hs

/-- What ODBC demands, at a point of a run. -/
structure HandlesKept (s : State) : Prop where
  /-- Nothing is allocated but the globals and the statements of the lookups. -/
  handles : s.handles = s.globals.handles
  lookup : ∀ i q c next stmt, s.lookups i = some ⟨q, .call c next, stmt⟩ → (s.seen stmt).Demand c
  finished : ∀ i q r stmt, s.lookups i = some ⟨q, .done r, stmt⟩ →
    stmt = none ∧ Fetched q.columns r
  distinct : ∀ i j l l', s.lookups i = some l → s.lookups j = some l' → l.stmt.isSome = true →
    l.stmt = l'.stmt → i = j
  opens : ∀ line t c next, (∃ c ∈ cstr line, c ≠ 44) →
    Runs (sqlinit s.globals (some line)) t (.call c next) → odbc.Assumed s.handles t →
    (odbc.after s.handles t).Demand c
  closes : ∀ t c next, Runs (sqlclose s.globals) t (.call c next) → odbc.Assumed s.handles t →
    (odbc.after s.handles t).Demand c
  closed : ∀ t g, Runs (sqlclose s.globals) t (.done g) → odbc.Assumed s.handles t →
    odbc.after s.handles t = ⟨none, none, false, none⟩
  /-- Nothing checks that a connection disconnects, and where one does not, it is freed all the
  same. -/
  undisconnected : ∀ r c next, s.globals.hdbc.isSome = true → r.succeeded = false →
    Runs (sqlclose s.globals) [⟨.disconnect s.globals.hdbc, r⟩] (.call c next) →
    ¬ (odbc.after s.handles [⟨.disconnect s.globals.hdbc, r⟩]).Demand c

/-- At every point of every run, with any results of the calls that `Assume` leaves open and any
number of lookups side by side, each call to ODBC is made on a handle that is allocated, or on that
of the statement that was not made, and frees nothing that something else belongs to.  No two lookups
share a statement, one that has ended has freed its own, and what it has found fits the arrays. -/
theorem db_keepsHandles (h : Lts.Run Step start ls s) : HandlesKept s := by
  have hk := run_kept h
  refine ⟨hk.handles, fun i q c next stmt hl => ?_, fun i q r stmt hl => ?_, hk.distinct,
    fun line t c next hline hrun ht => ?_, fun t c next hrun ht => ?_, fun t g hrun ht => ?_,
    fun r c next hsome hr hrun => ?_⟩
  · rw [State.seen, hk.handles]
    exact (hk.lookup i _ hl).wp.1
  · obtain ⟨hdone, hfetched⟩ := (hk.lookup i _ hl).wp
    exact ⟨congrArg Handles.stmt hdone, hfetched⟩
  · rw [hk.handles] at ht ⊢
    exact (wp_runs (sqlinit_wp hk.wf hline) hrun ht).1
  · rw [hk.handles] at ht ⊢
    exact (wp_runs (sqlclose_wp hk.wf) hrun ht).1
  · rw [hk.handles] at ht ⊢
    obtain ⟨rfl, hafter⟩ := wp_runs (sqlclose_wp hk.wf) hrun ht
    exact hafter
  · rw [hk.handles]
    exact sqlclose_undisconnected hsome hr hrun

end Runs

/-- Two lookups side by side that have allocated their statements. -/
theorem db_keepsHandles_lookups : ∃ ls s q c next q' c' next', Lts.Run Step start ls s ∧
    s.lookups 0 = some ⟨q, .call c next, some 2⟩ ∧ (s.seen (some 2)).Demand c ∧
    s.lookups 1 = some ⟨q', .call c' next', some 3⟩ ∧ (s.seen (some 3)).Demand c' ∧
    s.handles = ⟨some 0, some 1, true, none⟩ := by
  have hrun : Lts.Run Step start [] start := .nil
  have hopen : Runs (sqlinit ⟨none, none⟩ (some [97])) [⟨.allocEnv, (.success, some 0)⟩,
      ⟨.setEnvAttr (some 0), .success⟩, ⟨.allocDbc (some 0), (.success, some 1)⟩,
      ⟨.setConnectAttr (some 1), .success⟩, ⟨.connect (some 1) [97] none none, .success⟩]
      (.done (0, ⟨some 0, some 1⟩)) := .cons (.cons (.cons (.cons (.cons (.nil _)))))
  have hrun := hrun.snoc (.sqlinit (fun _ => rfl) ⟨97, by decide, by decide⟩ hopen
    ⟨rfl, trivial, rfl, trivial, trivial, trivial⟩)
  have hrun := hrun.snoc (.start (i := 0) (.app [117]) rfl)
  have hrun := hrun.snoc (.call (i := 0) (c := .allocStmt (some 1)) (r := (.success, some 2)) rfl rfl
    fun j l hj hl => by simp [hj, start] at hl)
  have hrun := hrun.snoc (.start (i := 1) (.proxy 7 1080 1) rfl)
  have hrun := hrun.snoc (.call (i := 1) (c := .allocStmt (some 1)) (r := (.success, some 3)) rfl rfl
    fun j l hj hl _ => .inr fun heq => by
      by_cases h0 : j = 0
      · subst h0
        cases hl
        cases heq
      · simp [hj, h0, start] at hl)
  have hkept := db_keepsHandles hrun
  exact ⟨_, _, _, _, _, _, _, _, hrun, rfl, hkept.lookup 0 _ _ _ _ rfl, rfl,
    hkept.lookup 1 _ _ _ _ rfl, rfl⟩

end Db

end Silksocks
