import PlanReplay.Host.FileError
import PlanReplay.Planner.Response

/-!
# Scripts

What a session does to the world outside it is a script: it asks its host for one thing at a time, and goes on
with the host's reply. A script does nothing by itself; `Script.run` takes the replies from a host that is given
as a function, so that a script can be run against the files of a machine, and reasoned about against a model
of them.
-/

namespace PlanReplay

/-- What a planner is called with: the texts of a domain and a problem, and the files that hold them. -/
structure PlannerCall where
  domain : String
  problem : String
  domainPath : String
  problemPath : String
deriving DecidableEq

/-- Something that a script asks its host for. -/
inductive Request where
  /-- The absolute path of what exists at a path. -/
  | canonicalPath (path : String)
  | isFile (path : String)
  | pathExists (path : String)
  /-- Creates a directory, and those around it that do not exist yet. -/
  | createDirectories (path : String)
  | readFile (path : String)
  | writeFile (path content : String)
  /-- Renames a file; a file that has the new name is replaced. -/
  | renameFile (source target : String)
  | removeFile (path : String)
  | askPlanner (call : PlannerCall)
  | print (text : String)
  /-- Nanoseconds since some point of time. -/
  | now
  | pause (nanos : Nat)

/-- The type of the host's reply to a request. -/
@[reducible] def Request.Reply : Request → Type
  | canonicalPath _ => Option String
  | isFile _ | pathExists _ => Bool
  | readFile _ => Except FileError String
  | createDirectories _ | writeFile _ _ | renameFile _ _ | removeFile _ | print _ => Except FileError Unit
  | askPlanner _ => Except PlannerFailure PlannerResponse
  | now => Nat
  | pause _ => Unit

/-- A result, or a request and what to do with its reply. -/
inductive Script (τ : Type) where
  | done (result : τ)
  | ask (request : Request) (next : request.Reply → Script τ)

namespace Script

variable {τ υ σ : Type}

/-- A script that goes on with the result of another one. -/
def bind : Script τ → (τ → Script υ) → Script υ
  | done result, next => next result
  | ask request reply, next => ask request fun r => (reply r).bind next

instance : Monad Script where
  pure := done
  bind := bind

/-- The script of one request. -/
def request (r : Request) : Script r.Reply := ask r done

/-- Runs a script against a host, which replies to a request and may change by it. -/
def run (host : (r : Request) → σ → r.Reply × σ) : Script τ → σ → τ × σ
  | done result, s => (result, s)
  | ask r next, s =>
    match host r s with
    | (reply, s) => run host (next reply) s

theorem run_bind (host : (r : Request) → σ → r.Reply × σ) (script : Script τ) (next : τ → Script υ) (s : σ) :
    (script.bind next).run host s = (next (script.run host s).1).run host (script.run host s).2 := by
  induction script generalizing s with
  | done result => rfl
  | ask r reply ih => exact ih _ _

end Script

end PlanReplay
