import LayeredSettings.Setting.Basic

/-!
# The catalogue

Well-known settings, in groups that each belong to one section. A setting has a switch where YAML
files know it too, of the same type as its option.
-/

namespace LayeredSettings

/-- What a group says of one of its settings. -/
structure Listing where
  name : String
  option : String
  valueType : ValueType := .string
  switch : Option String := none
  transform : Option Transform := none

/-- The setting that a listing describes in a section. -/
def Listing.setting (l : Listing) (sectionName : String) : Setting :=
  .of { sectionName, option := l.option, valueType := l.valueType }
    (l.switch.map fun switch => { switch, valueType := l.valueType }) l.transform

/-- The settings of one section. -/
structure CatalogGroup where
  name : String
  sectionName : String
  listings : List Listing

/-- The settings of a group, by name. -/
def CatalogGroup.settings (g : CatalogGroup) : Members Setting :=
  g.listings.map fun l => (l.name, l.setting g.sectionName)

namespace Catalog

/-- The server and how it is reached. -/
def platform : CatalogGroup where
  name := "Platform"
  sectionName := "platform"
  listings :=
    [{ name := "URL", option := "url", switch := some "admin.endpoint"
       transform := some .stripDns },
     { name := "INSECURE", option := "insecure", valueType := .bool
       switch := some "admin.insecure" },
     { name := "INSECURE_SKIP_VERIFY", option := "insecure_skip_verify", valueType := .bool
       switch := some "admin.insecureSkipVerify" },
     { name := "CONSOLE_ENDPOINT", option := "console_endpoint"
       switch := some "console.endpoint" },
     { name := "CA_CERT_FILE_PATH", option := "ca_cert_file_path"
       switch := some "admin.caCertFilePath" }]

/-- How a client proves who it is. -/
def credentials : CatalogGroup where
  name := "Credentials"
  sectionName := "credentials"
  listings :=
    [{ name := "COMMAND", option := "command", valueType := .list
       switch := some "admin.command", transform := some .list },
     { name := "CLIENT_ID", option := "client_id", switch := some "admin.clientId" },
     { name := "CLIENT_CREDENTIALS_SECRET", option := "client_secret"
       switch := some "admin.clientSecretLocation", transform := some .fileText },
     { name := "SCOPES", option := "scopes", valueType := .list
       switch := some "admin.scopes", transform := some .list },
     { name := "AUTH_MODE", option := "auth_mode", switch := some "admin.authType" }]

/-- Storage on one cloud. -/
def aws : CatalogGroup where
  name := "AWS"
  sectionName := "aws"
  listings :=
    [{ name := "S3_ENDPOINT", option := "endpoint"
       switch := some "storage.connection.endpoint" },
     { name := "S3_ACCESS_KEY_ID", option := "access_key_id"
       switch := some "storage.connection.access-key" },
     { name := "S3_SECRET_ACCESS_KEY", option := "secret_access_key"
       switch := some "storage.connection.secret-key" },
     { name := "ENABLE_DEBUG", option := "enable_debug", valueType := .bool },
     { name := "RETRIES", option := "retries", valueType := .int, transform := some .int }]

/-- Storage on another cloud. -/
def gcp : CatalogGroup where
  name := "GCP"
  sectionName := "gcp"
  listings :=
    [{ name := "GSUTIL_PARALLELISM", option := "gsutil_parallelism", valueType := .bool }]

/-- The client itself. -/
def localSdk : CatalogGroup where
  name := "LocalSDK"
  sectionName := "sdk"
  listings :=
    [{ name := "WORKFLOW_PACKAGES", option := "workflow_packages", valueType := .list
       transform := some .list },
     { name := "LOCAL_SANDBOX", option := "local_sandbox" },
     { name := "LOGGING_LEVEL", option := "logging_level", valueType := .int
       transform := some .int },
     { name := "LOCAL_CACHE_ENABLED", option := "local_cache_enabled", valueType := .bool }]

/-- Where secrets are found. -/
def secrets : CatalogGroup where
  name := "Secrets"
  sectionName := "secrets"
  listings :=
    [{ name := "ENV_PREFIX", option := "env_prefix" },
     { name := "DEFAULT_DIR", option := "default_dir" },
     { name := "FILE_PREFIX", option := "file_prefix" }]

/-- The collector of measurements. -/
def statsd : CatalogGroup where
  name := "StatsD"
  sectionName := "statsd"
  listings :=
    [{ name := "HOST", option := "host" },
     { name := "PORT", option := "port", valueType := .int, transform := some .int },
     { name := "DISABLED", option := "disabled", valueType := .bool },
     { name := "DISABLE_TAGS", option := "disable_tags", valueType := .bool }]

/-- All groups. -/
def groups : List CatalogGroup := [platform, credentials, aws, gcp, localSdk, secrets, statsd]

/-- The group of a name. -/
def group? (name : String) : Option CatalogGroup := groups.find? (·.name == name)

/-- The setting of a name in a group. -/
def setting? (group name : String) : Option Setting :=
  (group? group).bind fun g => g.settings.get? name

end Catalog

end LayeredSettings
