import Foxhole.PrivateStore

/-! The files the private store works on, and what an operation may answer and do to them. -/
namespace Foxhole.PrivateStore
open Text Threads

/-- A file, a directory or a link. `accepted` is what its writer has handed over, of which the part
in `content` can be read; `writer` is the thread that has still to put it in its place. -/
structure Node where
  kind : Kind
  uid : ℕ
  nlink : ℕ
  mode : ℕ
  inode : ℕ
  content : Text
  accepted : Text
  writer : Option ℕ
deriving DecidableEq

def Node.info (node : Node) : Info :=
  ⟨node.kind, node.uid, node.nlink, node.mode, node.inode, node.content.length⟩

structure Commit where
  who : ℕ
  path : Text
  raw : Text
deriving DecidableEq

/-- The file system, and the renames that were done, which it does not keep. -/
structure Files where
  names : Text → Option ℕ
  nodes : ℕ → Option Node
  log : List Commit

namespace Files

def node (s : Files) (path : Text) : Option Node := (s.names path).bind s.nodes

def shown (s : Files) (path : Text) : Option Text :=
  (s.node path).bind fun node => if node.kind = .file then some node.content else none

def add (s : Files) (path : Text) (k : ℕ) (node : Node) : Files :=
  { s with names := Function.update s.names path (some k)
           nodes := Function.update s.nodes k (some node) }

def put (s : Files) (k : ℕ) (node : Node) : Files :=
  { s with nodes := Function.update s.nodes k (some node) }

def drop (s : Files) (path : Text) : Files :=
  { s with names := Function.update s.names path none }

/-- `rename(old, new)` by `i`, `k` being what `old` names. -/
def move (s : Files) (i : ℕ) (old new : Text) (k : ℕ) (node : Node) : Files where
  names := Function.update (Function.update s.names old none) new (some k)
  nodes := Function.update s.nodes k (some { node with writer := none })
  log := s.log ++ [⟨i, new, node.content⟩]

end Files

/-- What thread `i` may be answered. Any operation may fail, `lstat` where `blind` says so, a write
may be short, and what was written reaches the file when it likes until it is flushed. -/
inductive Does (blind : Prop) (i : ℕ) : Files → (o : Op) → Answer o → Files → Prop
  | lstat (s : Files) (path : Text) : Does blind i s (.lstat path) ((s.node path).map Node.info) s
  | lstatFails (s : Files) (path : Text) : blind → Does blind i s (.lstat path) none s
  | mkdir (s : Files) (path : Text) (k : ℕ) (node : Node) : s.names path = none →
    s.nodes k = none → node.kind = .directory → node.writer = none →
    Does blind i s (.mkdir path) true (s.add path k node)
  | mkdirFails (s : Files) (path : Text) : Does blind i s (.mkdir path) false s
  | random (s : Files) (n : ℕ) (raw : Option (List UInt8)) : Does blind i s (.random n) raw s
  | create (s : Files) (path : Text) (k : ℕ) (node : Node) : s.names path = none →
    s.nodes k = none → node.kind = .file → node.content = [] → node.accepted = [] →
    node.writer = some i → Does blind i s (.create path) (some k) (s.add path k node)
  | createFails (s : Files) (path : Text) : Does blind i s (.create path) none s
  | write (s : Files) (file : ℕ) (raw : Text) (node : Node) (n : ℕ) (content : Text)
    (answer : Option ℕ) : s.nodes file = some node → n ≤ raw.length →
    node.content <+: content → content <+: node.accepted ++ raw.take n →
    (∀ m ∈ answer, m = n) → Does blind i s (.write file raw) answer
      (s.put file { node with content := content, accepted := node.accepted ++ raw.take n })
  | writeFails (s : Files) (file : ℕ) (raw : Text) : Does blind i s (.write file raw) none s
  | flush (s : Files) (file : ℕ) (node : Node) (content : Text) (done : Bool) :
    s.nodes file = some node → node.content <+: content → content <+: node.accepted →
    (done = true → content = node.accepted) →
    Does blind i s (.flush file) done (s.put file { node with content := content })
  | flushFails (s : Files) (file : ℕ) : Does blind i s (.flush file) false s
  | close (s : Files) (file : ℕ) (node : Node) (content : Text) : s.nodes file = some node →
    node.content <+: content → content <+: node.accepted →
    Does blind i s (.close file) () (s.put file { node with content := content })
  | closeFails (s : Files) (file : ℕ) : Does blind i s (.close file) () s
  | rename (s : Files) (old new : Text) (k : ℕ) (node : Node) : s.names old = some k →
    s.nodes k = some node → (∀ target ∈ s.node new, target.kind ≠ .directory) →
    Does blind i s (.rename old new) true (s.move i old new k node)
  | renameFails (s : Files) (old new : Text) : Does blind i s (.rename old new) false s
  | unlink (s : Files) (path : Text) (node : Node) : s.node path = some node →
    node.kind ≠ .directory → Does blind i s (.unlink path) true (s.drop path)
  | unlinkFails (s : Files) (path : Text) : Does blind i s (.unlink path) false s
  | openRead (s : Files) (path : Text) (k : ℕ) (node : Node) : s.names path = some k →
    s.nodes k = some node → node.kind ≠ .link → Does blind i s (.openRead path) (some k) s
  | openLink (s : Files) (path : Text) (k : ℕ) (node : Node) : s.node path = some node →
    node.kind = .link → Does blind i s (.openRead path) (some k) s
  | openFails (s : Files) (path : Text) : Does blind i s (.openRead path) none s
  | fetch (s : Files) (file start n : ℕ) (node : Node) (chunk : Text) :
    s.nodes file = some node → node.kind = .file →
    chunk <+: (node.content.drop start).take n →
    (chunk = [] → (node.content.drop start).take n = []) →
    Does blind i s (.fetch file start n) (some chunk) s
  | fetchFails (s : Files) (file start n : ℕ) : Does blind i s (.fetch file start n) none s

/-- A path the store is used with, which is not one of its own temporary ones. -/
structure Place where
  path : Text
  plain : ¬ ".new-".toList <:+: path

inductive Call where
  | read (place : Place) (limit : ℕ)
  | write (place : Place) (raw : Text)

def Call.program : Call → Prog Op Answer (Except Err (Option Text))
  | read place limit => (PrivateStore.read place.path limit).run
  | write place raw => (do PrivateStore.write place.path raw; return none : Io (Option Text)).run

end Foxhole.PrivateStore
