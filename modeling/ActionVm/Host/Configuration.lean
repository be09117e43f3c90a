import ActionVm.Toml.Document
import ActionVm.Toml.Expected
import ActionVm.Worker

/-!
# Configurations

What a configuration file says about a host.

* `Configuration`: the arguments, the debugger mark and the roots that a file names;
* `Configuration.ofFields`: the configuration that a table describes;
* `ConfigurationTrouble`: why a text is no configuration;
* **`Configuration.parse`**: the configuration that a text spells;
* `Configuration.grants`: what it grants.
-/

namespace ActionVm.Host

/-- What a configuration file says. -/
structure Configuration where
  settings : HostSettings
  readable : List String
  writable : List String
  deriving DecidableEq, Repr, Inhabited

/-- Why a text is no configuration. -/
inductive ConfigurationTrouble where
  /-- It is no document. -/
  | malformed
  | fault (f : Toml.Fault)
  deriving DecidableEq, Repr

namespace Configuration

/-- The configuration with what stands under a key of its permissions. -/
def addPermission (c : Configuration) (key : String) (item : Toml.Located Toml.Item) :
    Except Toml.Fault Configuration := do
  match key with
  | "allow_read" => return { c with readable := ← Toml.texts item }
  | "allow_write" => return { c with writable := ← Toml.texts item }
  | _ =>
    Toml.ignored item
    return c

/-- The configuration with its permissions: a table names them, an array lists them in this order,
and a moment names none. -/
def addPermissions (c : Configuration) (item : Toml.Located Toml.Item) :
    Except Toml.Fault Configuration :=
  match item.content with
  | .table _ fields => fields.foldlM (fun c (key, item) => c.addPermission key item) c
  | .array _ items =>
    let named := ["allow_read", "allow_write"].zip items
    named.foldlM (fun c (key, item) => c.addPermission key item) c
  | .moment _ => .ok c
  | _ => .error (item.mismatch "struct PermissionsConfig")

/-- The configuration with what stands under a key of its own. -/
def addField (c : Configuration) (key : String) (item : Toml.Located Toml.Item) :
    Except Toml.Fault Configuration := do
  match key with
  | "argv" => return { c with settings := { c.settings with arguments := ← Toml.texts item } }
  | "debugger" => return { c with settings := { c.settings with debugger := ← Toml.boolean item } }
  | "permissions" => c.addPermissions item
  | _ =>
    Toml.ignored item
    return c

/-- The configuration that a table describes. Keys without a meaning are passed over. -/
def ofFields (fields : Toml.Fields) : Except Toml.Fault Configuration :=
  fields.foldlM (fun c (key, item) => c.addField key item) default

/-- The configuration that a text spells. -/
def parse (source : String) : Except ConfigurationTrouble Configuration :=
  match Toml.parse? source with
  | none => .error .malformed
  | some fields => (ofFields fields).mapError .fault

/-- The grant of the roots that a file names: no root grants nothing. -/
def grantOf (roots : List String) : Grant := if roots.isEmpty then .nothing else .within roots

/-- What a configuration grants. -/
def grants (c : Configuration) : Grants := ⟨grantOf c.readable, grantOf c.writable⟩

end Configuration

end ActionVm.Host
