import MoneyLaundering.FaultTolerance.Wal
import MoneyLaundering.Lib.Base64
import MoneyLaundering.Lib.Json

/-!
# State changes as dictionaries

A worker describes every change of its state by a dictionary of built-in values. The dictionary is
applied to the live state, and it is written to the log as JSON (`wal/writer.py`, `wal/reader.py`);
a recovery reads it back and applies what it has read. The models of the workers take a change apart
already; here are the dictionaries themselves, with the fields that `apply_change` reads. Code that
changes a state may raise, and what it changed before stays changed.
-/

namespace MoneyLaundering

open Bytes Json

/-- Code that changes a state and may raise. -/
abbrev ApplyM (σ : Type) := ExceptT String (StateM σ)

/-- What a state is after the code, and what the code raised. -/
def ApplyM.exec {σ : Type} (act : ApplyM σ Unit) (s : σ) : Except String Unit × σ := act.run.run s

/-- Code for one part of a state. What it changed there before it raised stays changed. -/
def ApplyM.onPart {σ π : Type} (read : σ → π) (write : σ → π → σ) (act : ApplyM π Unit) :
    ApplyM σ Unit :=
  ExceptT.mk fun s =>
    let (result, part) := act.exec (read s)
    (result, write s part)

/-! ## Writing and reading -/

/-- `json.dumps(record.state_change).encode()`. -/
def encodeStateChange (change : Value) : Except String Bytes := do
  return encodeText (String.ofList (← dumps change))

/-- `_decode_json_state_change`. -/
def decodeJsonStateChange (data : Bytes) : Except String Value :=
  match (decodeText? data).bind fun text => loads text.toList with
  | none => .error "invalid JSON state_change in WAL record"
  | some (.dict es) => .ok (.dict es)
  | some _ => .error "state_change must decode to a dict"

/-- A dictionary with texts for keys. -/
def obj (fields : List (String × Value)) : Value := .dict (fields.map fun e => (.str e.1, e.2))

theorem native_obj {fields : List (String × Value)} (hn : (fields.map Prod.fst).Nodup)
    (h : ∀ e ∈ fields, Native e.2) : Native (obj fields) := by
  refine ⟨?_, nativeFields_iff.mpr fun e he => ?_⟩
  · have hkeys : (fields.map fun e => ((.str e.1, e.2) : Key × Value)).map Prod.fst =
        (fields.map Prod.fst).map Key.str := by simp
    rw [hkeys]
    exact hn.map fun a b hab => Key.str.inj hab
  · obtain ⟨e', he', rfl⟩ := List.mem_map.mp he
    exact ⟨⟨e'.1, rfl⟩, h e' he'⟩

/-- A change of lists, numbers and texts under text keys is read from the log as it was. -/
theorem decode_encode {es : List (Key × Value)} (h : Native (.dict es)) :
    ∃ data, encodeStateChange (.dict es) = .ok data ∧
    decodeJsonStateChange data = .ok (.dict es) := by
  obtain ⟨t, ht, hl⟩ := loads_dumps_of_native h
  refine ⟨encodeText (String.ofList t), ?_, ?_⟩
  · rw [encodeStateChange, ht]
    rfl
  · rw [decodeJsonStateChange, decodeText?_encodeText, Option.bind_some, String.toList_ofList, hl]

/-! ## Fields -/

/-- The entries of a change. -/
abbrev Fields := List (Key × Value)

namespace Fields

variable (es : Fields) (key : String)

/-- `change[key]`. -/
def get : Except String Value :=
  match Dict.find (.str key) es with
  | some v => .ok v
  | none => .error key

/-- `change[key]`, a number. A field of another type is not what a constructor of a change
writes. -/
def nat : Except String Nat := do
  match ← get es key with
  | .int (.ofNat n) => return n
  | _ => .error "TypeError"

def text : Except String String := do
  match ← get es key with
  | .str s => return s
  | _ => .error "TypeError"

def bool : Except String Bool := do
  match ← get es key with
  | .bool b => return b
  | _ => .error "TypeError"

def items : Except String (List Value) := do
  match ← get es key with
  | .list vs => return vs
  | _ => .error "TypeError"

/-- `change[key].items()`, with what `read` makes of the values. -/
def entriesWith {ν : Type} (read : Value → Except String ν) : Except String (Dict String ν) := do
  match ← get es key with
  | .dict entries => do
    let pairs ← entries.mapM fun e => do
      match e.1 with
      | .str k => return (k, ← read e.2)
      | .int _ => .error "TypeError"
    return Dict.ofList pairs
  | _ => .error "TypeError"

end Fields

/-- A number of a dictionary of counts. -/
def readCount : Value → Except String Nat
  | .int (.ofNat n) => .ok n
  | _ => .error "TypeError"

def readText : Value → Except String String
  | .str s => .ok s
  | _ => .error "TypeError"

def readTexts : Value → Except String (List String)
  | .list vs => vs.mapM readText
  | _ => .error "TypeError"

/-- `base64.b64decode`. -/
def b64decode (text : String) : Except String Bytes :=
  match Base64.decode text.toList with
  | some bs => .ok bs
  | none => .error "Incorrect padding"

/-- `base64.b64encode(payload).decode("ascii")`. -/
def b64encode (payload : Bytes) : String := String.ofList (Base64.encode payload)

@[simp] theorem toList_b64encode (payload : Bytes) :
    (b64encode payload).toList = Base64.encode payload :=
  String.toList_ofList

@[simp] theorem b64decode_b64encode (payload : Bytes) :
    b64decode (b64encode payload) = .ok payload := by
  rw [b64decode, toList_b64encode, Base64.decode_encode]

/-- `forwarded_by_output`, as a value. -/
def countsValue (counts : Dict String Nat) : Value :=
  obj (counts.entries.map fun e => (e.1, .int e.2))

theorem native_countsValue (counts : Dict String Nat) : Native (countsValue counts) := by
  refine native_obj ?_ fun e he => ?_
  · simpa [Function.comp_def] using counts.nodup
  · obtain ⟨e', -, rfl⟩ := List.mem_map.mp he
    trivial

/-- A dictionary of values that `read` knows is read as it is. -/
theorem entriesWith_obj {es : Fields} {key : String} {ν : Type} {d : Dict String ν} {f : ν → Value}
    {read : Value → Except String ν}
    (hg : es.get key = .ok (obj (d.entries.map fun e => (e.1, f e.2))))
    (hr : ∀ x, read (f x) = .ok x) : es.entriesWith key read = .ok d := by
  have hm : (d.entries.map fun e => ((.str e.1, f e.2) : Key × Value)).mapM (fun e => do
      match e.1 with
      | .str k => return (k, ← read e.2)
      | .int _ => .error "TypeError") = .ok d.entries := by
    induction d.entries with
    | nil => rfl
    | cons e es ih =>
      rw [List.map_cons, List.mapM_cons]
      simp only [hr, Except.ok_bind, ih]
      rfl
  rw [Fields.entriesWith, hg, Except.ok_bind, obj, List.map_map]
  change (List.mapM _ _ >>= _) = _
  rw [show (fun e : String × Value => ((.str e.1, e.2) : Key × Value)) ∘ (fun e : String × ν =>
    (e.1, f e.2)) =
    fun e => (.str e.1, f e.2) from rfl, hm, Except.ok_bind, Dict.ofList_entries]
  rfl

/-! ## Changes made of changes -/

section nested
variable {σ : Type}

mutual

/-- `apply_change` of a state that knows the type `compound`; `single` is what it does with the
other types. -/
def applyNested (single : Fields → ApplyM σ Unit) : Value → ApplyM σ Unit
  | .dict es =>
    match Dict.find (.str "type") es with
    | some (.str "compound") => applyChanges single es
    | _ => single es
  | _ => throw "TypeError"

/-- `for sub in change["changes"]`. -/
def applyChanges (single : Fields → ApplyM σ Unit) : Fields → ApplyM σ Unit
  | [] => throw "changes"
  | (k, v) :: es =>
    if k = .str "changes" then
      match v with
      | .list vs => applyAll single vs
      | _ => throw "TypeError"
    else applyChanges single es

def applyAll (single : Fields → ApplyM σ Unit) : List Value → ApplyM σ Unit
  | [] => pure ()
  | v :: vs => do
    applyNested single v
    applyAll single vs

end

end nested

/-- `compound_change`. -/
def compoundChange (changes : List Value) : Value :=
  obj [("type", .str "compound"), ("changes", .list changes)]

theorem native_compoundChange {changes : List Value} (h : ∀ change ∈ changes, Native change) :
    Native (compoundChange changes) := by
  refine native_obj (by simp) fun e he => ?_
  simp only [List.mem_cons, List.not_mem_nil, or_false] at he
  rcases he with rfl | rfl
  · trivial
  · exact nativeItems_iff.mpr h

section apply
variable {σ : Type} {single : Fields → ApplyM σ Unit}

/-- A compound change is applied part by part. -/
theorem applyNested_compoundChange (changes : List Value) :
    applyNested single (compoundChange changes) = applyAll single changes := rfl

theorem exec_bind {α : Type} (act : ApplyM σ α) (next : α → ApplyM σ Unit) (s : σ) :
    ApplyM.exec (act >>= next) s =
      match act.run.run s with
      | (.ok a, s') => ApplyM.exec (next a) s'
      | (.error e, s') => (.error e, s') := by
  rcases h : act.run.run s with ⟨a | a, s'⟩ <;>
    (simp only [ApplyM.exec, ExceptT.run_bind, StateT.run_bind, h]; rfl)

theorem exec_get_bind (next : σ → ApplyM σ Unit) (s : σ) :
    ApplyM.exec (get >>= next) s = ApplyM.exec (next s) s := rfl

theorem exec_lift_bind {α : Type} {x : Except String α} {a : α} (h : x = .ok a)
    (next : α → ApplyM σ Unit)
    (s : σ) : ApplyM.exec ((liftM x : ApplyM σ α) >>= next) s = ApplyM.exec (next a) s := by
  subst h
  rfl

/-- A part is changed by code that does not raise. -/
theorem exec_onPart {π : Type} {read : σ → π} {write : σ → π → σ} {act : ApplyM π Unit}
    {s : σ} {part : π} (h : act.exec (read s) = (.ok (), part)) :
    (ApplyM.onPart read write act).exec s = (.ok (), write s part) := by
  change (let (result, part) := act.exec (read s); (result, write s part)) = _
  rw [h]

theorem exec_onPart_bind {π : Type} {read : σ → π} {write : σ → π → σ} {act : ApplyM π Unit}
    {s : σ} {part : π} (h : act.exec (read s) = (.ok (), part)) (next : Unit → ApplyM σ Unit) :
    ApplyM.exec (ApplyM.onPart read write act >>= next) s = ApplyM.exec (next ())
    (write s part) := by
  have hrun : (ApplyM.onPart read write act).run.run s = (.ok (), write s part) := exec_onPart h
  rw [exec_bind, hrun]

/-- A loop of steps that do not raise. -/
theorem exec_forM {ι : Type} {step : ι → ApplyM σ Unit} {apply : σ → ι → σ} {xs : List ι}
    (h : ∀ s, ∀ x ∈ xs, (step x).exec s = (.ok (), apply s x)) (s : σ) :
    ApplyM.exec (forM xs step) s = (.ok (), xs.foldl apply s) := by
  induction xs generalizing s with
  | nil => rfl
  | cons x xs ih =>
    have hrun : (step x).run.run s = (.ok (), apply s x) := h s x List.mem_cons_self
    rw [List.forM_cons, exec_bind, hrun]
    exact ih (fun s x hm => h s x (List.mem_cons_of_mem _ hm)) (apply s x)

/-- Where the first part does the same to two states, so does a compound that begins with it. -/
theorem exec_compoundChange_congr {first : Value} {s s' : σ}
    (h : (applyNested single first).exec s = (applyNested single first).exec s')
    (rest : List Value) :
    (applyNested single (compoundChange (first :: rest))).exec s =
      (applyNested single (compoundChange (first :: rest))).exec s' := by
  rw [applyNested_compoundChange, applyAll, exec_bind, exec_bind]
  have hrun : (applyNested single first).run.run s = (applyNested single first).run.run s' := h
  rw [hrun]

/-- A compound of changes that do not raise applies them in order. -/
theorem exec_compoundChange_map {ο : Type} {toDict : ο → Value} {apply : σ → ο → σ} {ops : List ο}
    (h : ∀ s, ∀ op ∈ ops, (applyNested single (toDict op)).exec s = (.ok (), apply s op)) (s : σ) :
    (applyNested single (compoundChange (ops.map toDict))).exec s =
      (.ok (), ops.foldl apply s) := by
  rw [applyNested_compoundChange]
  induction ops generalizing s with
  | nil => rfl
  | cons op ops ih =>
    have hrun : (applyNested single (toDict op)).run.run s = (.ok (), apply s op) :=
      h s op List.mem_cons_self
    rw [List.map_cons, applyAll, exec_bind, hrun]
    exact ih (fun s op hm => h s op (List.mem_cons_of_mem _ hm)) (apply s op)

end apply

/-! ## Live and replayed -/

/-- A worker state with its changes as dictionaries: those that its constructors build, and what
`apply_change` does with one. -/
structure DictState (σ ς : Type) where
  snapshot : σ → ς
  restore : ς → σ
  applyChange : Value → ApplyM σ Unit
  Built : Value → Prop

namespace DictState

variable {σ ς : Type} (w : DictState σ ς)

/-- The change is applied as it was built. -/
def live (s : σ) (change : Value) : Except String Unit × σ := (w.applyChange change).exec s

/-- The change is read from the log and applied to a state that was restored. -/
def replay (snap : ς) (data : Bytes) : Except String Unit × σ :=
  match decodeJsonStateChange data with
  | .error e => (.error e, w.restore snap)
  | .ok change => (w.applyChange change).exec (w.restore snap)

/-- The change can be logged. Replayed on a state restored from a snapshot of `s`, it leads to the
state, and raises what, it does when it is applied live to `s'`. -/
def ReplaysAs (change : Value) (s s' : σ) : Prop :=
  ∃ data, encodeStateChange change = .ok data ∧ w.replay (w.snapshot s) data = w.live s' change

/-- What the proofs use of a state: a snapshot is complete, and every change is a dictionary of
values that JSON keeps. -/
structure Lawful : Prop where
  restore_snapshot : ∀ s, w.restore (w.snapshot s) = s
  native : ∀ change, w.Built change → ∃ es, change = .dict es ∧ Native change

variable {w}

theorem Lawful.replaysAs (h : w.Lawful) {change : Value} (hc : w.Built change) {s s' : σ}
    (hs : w.live s change = w.live s' change) : w.ReplaysAs change s s' := by
  obtain ⟨es, rfl, hn⟩ := h.native change hc
  obtain ⟨data, hdata, hdecode⟩ := decode_encode hn
  refine ⟨data, hdata, ?_⟩
  rw [replay, hdecode, h.restore_snapshot]
  exact hs

end DictState

end MoneyLaundering
