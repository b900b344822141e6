import YirangMQ.Backend.Content
import YirangMQ.FileSystem.Lifecycle
import YirangMQ.Hybrid.Lifecycle
import YirangMQ.SQLite.Lifecycle

namespace YirangMQ

/-!
# The three backends

The adapter of each backend type, with its life cycle.  The two backends over SQLite are
created by one of the shipped schema files.

* `BackendType.adapter`, `BackendType.lifecycle` — a backend;
* `BackendType.Given`, `BackendType.Reaching` — the calls of its runs.
-/

/-- The store of a backend. -/
def BackendType.Store : BackendType → Type
  | .fileSystem => FileSystem.Disk
  | .sqlite => SQLite.Store
  | .hybrid => Hybrid.Store

/-- The adapter of a backend. -/
def BackendType.adapter (schema : SchemaFile) : (backend : BackendType) → Adapter backend.Store
  | .fileSystem => FileSystem.adapter
  | .sqlite => SQLite.adapter schema
  | .hybrid => Hybrid.adapter schema

/-- Every backend has the life cycle of messages. -/
def BackendType.lifecycle (schema : SchemaFile) :
    (backend : BackendType) → Lifecycle (backend.adapter schema)
  | .fileSystem => FileSystem.nulFree
  | .sqlite => SQLite.lifecycle schema
  | .hybrid => Hybrid.lifecycle schema

/-- The calls a backend is given: on SQLite any that publish, if they do, as `handle_publish` does,
    on the other two those whose texts are read as they are. -/
def BackendType.Given (schema : SchemaFile) : (backend : BackendType) →
    History backend.Store (Env × Call) Reply → backend.Store → Env × Call → Prop
  | .fileSystem, h, s, i => FileSystem.nulFree.Admitted h s i
  | .sqlite, h, _, i => i.2.Fresh (publishedBy h)
  | .hybrid, h, s, i => (Hybrid.lifecycle schema).Admitted h s i

/-- The same, where on FileSystem tokens may have keys with NUL characters too. -/
def BackendType.Reaching (schema : SchemaFile) : (backend : BackendType) →
    History backend.Store (Env × Call) Reply → backend.Store → Env × Call → Prop
  | .fileSystem, h, s, i => FileSystem.lifecycle.Admitted h s i
  | .sqlite, h, _, i => i.2.Fresh (publishedBy h)
  | .hybrid, h, s, i => (Hybrid.lifecycle schema).Admitted h s i

variable {schema : SchemaFile} {backend : BackendType}
  {h : History backend.Store (Env × Call) Reply} {s : backend.Store} {i : Env × Call}

theorem BackendType.given_of_admitted (ok : (backend.lifecycle schema).Admitted h s i) :
    backend.Given schema h s i := by
  cases backend with
  | fileSystem => exact ok
  | sqlite => exact ok.fresh
  | hybrid => exact ok

theorem BackendType.reaching_of_given (ok : backend.Given schema h s i) :
    backend.Reaching schema h s i := by
  cases backend with
  | fileSystem => exact ⟨ok.calm, ok.admits.1, ok.fresh⟩
  | sqlite => exact ok
  | hybrid => exact ok

/-- Whatever is leased on SQLite, the store is kept. -/
theorem SQLite.sustains_fresh (schema : SchemaFile) :
    (SQLite.lifecycle schema).Sustains fun h _ i => i.2.Fresh (publishedBy h) :=
  ⟨fun ok => ok, fun ok hkeeps => SQLite.Keeps.kept hkeeps ok⟩

/-- Such calls keep what the life cycle keeps. -/
theorem BackendType.sustains_reaching (schema : SchemaFile) (backend : BackendType) :
    (backend.lifecycle schema).Sustains (backend.Reaching schema) := by
  cases backend with
  | fileSystem => exact ⟨FileSystem.lifecycle.sustains_admitted.fresh,
      FileSystem.lifecycle.sustains_admitted.kept⟩
  | sqlite => exact SQLite.sustains_fresh schema
  | hybrid => exact (Hybrid.lifecycle schema).sustains_admitted

theorem BackendType.sustains_given (schema : SchemaFile) (backend : BackendType) :
    (backend.lifecycle schema).Sustains (backend.Given schema) :=
  (backend.sustains_reaching schema).mono reaching_of_given

end YirangMQ
