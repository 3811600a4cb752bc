import SchemaScan.Scan.Head

/-! # Scripts

What a scanner does on its way cannot be told from the function that it is. A script can be read: it reads its
input, looks at its head, stops, or acts on the head, one after the other. So it has a history, which tells for
every act where the head has been before.
-/
namespace SchemaScan

/-- What changes a head. -/
inductive Act where
  | next | backup | ignore
  | emit (kind : Kind)
  deriving DecidableEq, Repr

namespace Act

/-- What an act finds out. -/
abbrev Result : Act → Type
  | next => Option Char
  | backup | ignore | emit _ => Unit

def perform : (a : Act) → Scanner a.Result
  | next => Scanner.next
  | backup => Scanner.backup
  | ignore => Scanner.ignore
  | emit kind => Scanner.emit kind

end Act

/-- What has been done, each act with the head before it. -/
abbrev History := List (Head × Act)

/-- The acts lead from one head to another. -/
inductive History.Leads (input : Input) : Head → History → Head → Prop
  | refl (h : Head) : Leads input h [] h
  | act {h k h' : Head} {a : Act} {r : Except Stop a.Result} {later : History}
    (ha : a.perform input h = some (r, k)) (hlater : Leads input k later h') : Leads input h ((h, a) :: later) h'

/-- A scanner, written down. -/
inductive Script : Type → Type 1 where
  | pure {α : Type} (a : α) : Script α
  | stop {α : Type} (e : Stop) : Script α
  | giveUp {α : Type} : Script α
  | read : Script Input
  | get : Script Head
  | act (a : Act) : Script a.Result
  | bind {α β : Type} (s : Script α) (f : α → Script β) : Script β

namespace Script

def run {α : Type} : Script α → Scanner α
  | pure a => Pure.pure a
  | stop e => throw e
  | giveUp => Scanner.giveUp
  | read => MonadReader.read
  | get => MonadState.get
  | act a => a.perform
  | bind s f => s.run >>= fun a => (f a).run

/-- What is done from a head on. -/
def history {α : Type} : Script α → Input → Head → History
  | pure _, _, _ => []
  | stop _, _, _ => []
  | giveUp, _, _ => []
  | read, _, _ => []
  | get, _, _ => []
  | act a, _, h => [(h, a)]
  | bind s f, input, h => s.history input h ++
    match s.run input h with
    | some (.ok a, k) => (f a).history input k
    | _ => []

end Script

end SchemaScan
