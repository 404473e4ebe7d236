import PaymentsNotifications.Config
import PaymentsNotifications.Lib.DebugFmt

/-! The derived `Debug` of the configuration, as `{:#?}` writes it: every field of
every struct, the secrets included. -/

namespace PaymentsNotifications
open DebugFmt

/-- A number in decimal. -/
def decimal (n : Nat) : List Char := Nat.toDigits 10 n

variable (printable : Char → Bool)

def stringDebug (s : String) : List Char := quoted printable s.toList

def ServerConfig.debug (server : ServerConfig) : List Char :=
  structText "Server"
    [("host", stringDebug printable server.host), ("port", stringDebug printable server.port)]

def ClientConfig.debug (client : ClientConfig) : List Char :=
  structText "Client"
    [("dns_threads", decimal client.dnsThreads),
     ("der_path", stringDebug printable client.derPath),
     ("tls_password", stringDebug printable client.tlsPassword),
     ("secp_private_key", stringDebug printable client.secpPrivateKey)]

def RabbitConfig.debug (rabbit : RabbitConfig) : List Char :=
  structText "Rabbit"
    [("url", stringDebug printable rabbit.url),
     ("thread_pool_size", decimal rabbit.threadPoolSize),
     ("connection_timeout_secs", decimal rabbit.connectionTimeoutSecs),
     ("connection_pool_size", decimal rabbit.connectionPoolSize),
     ("restart_subscription_secs", decimal rabbit.restartSubscriptionSecs)]

def SentryConfig.debug (sentry : SentryConfig) : List Char :=
  structText "SentryConfig" [("dsn", stringDebug printable sentry.dsn)]

def GrayLogConfig.debug (graylog : GrayLogConfig) : List Char :=
  structText "GrayLogConfig"
    [("addr", stringDebug printable graylog.addr),
     ("cluster", optionText (stringDebug printable) graylog.cluster)]

def FileLogConfig.debug (filelog : FileLogConfig) : List Char :=
  structText "FileLogConfig" [("path", stringDebug printable filelog.path)]

def IosCredentials.debug (ios : IosCredentials) : List Char :=
  structText "IosCredentials"
    [("ios_url", stringDebug printable ios.iosUrl),
     ("ios_token", stringDebug printable ios.iosToken),
     ("ios_user_id", stringDebug printable ios.iosUserId)]

def SendGridConf.debug (sendgrid : SendGridConf) : List Char :=
  structText "SendGridConf"
    [("api_addr", stringDebug printable sendgrid.apiAddr),
     ("api_key", stringDebug printable sendgrid.apiKey),
     ("send_mail_path", stringDebug printable sendgrid.sendMailPath),
     ("from_email", stringDebug printable sendgrid.fromEmail),
     ("from_name", stringDebug printable sendgrid.fromName)]

def Config.debug (config : Config) : List Char :=
  structText "Config"
    [("server", config.server.debug printable),
     ("client", config.client.debug printable),
     ("rabbit", config.rabbit.debug printable),
     ("sentry", optionText (SentryConfig.debug printable) config.sentry),
     ("graylog", optionText (GrayLogConfig.debug printable) config.graylog),
     ("filelog", optionText (FileLogConfig.debug printable) config.filelog),
     ("ios_credentials", config.iosCredentials.debug printable),
     ("sendgrid", config.sendgrid.debug printable)]

/-! ## The secrets in the text -/

/-- The configurations differ at most in `client.secp_private_key`,
`client.tls_password` and `sendgrid.api_key`. -/
def Config.SameButSecrets (c d : Config) : Prop :=
  ∃ secpPrivateKey tlsPassword apiKey,
    d = { c with
      client := { c.client with secpPrivateKey := secpPrivateKey, tlsPassword := tlsPassword }
      sendgrid := { c.sendgrid with apiKey := apiKey } }

theorem Config.SameButSecrets.rabbit_eq {c d : Config} (h : c.SameButSecrets d) :
    d.rabbit = c.rabbit := by
  obtain ⟨key, password, apiKey, rfl⟩ := h
  rfl

variable {printable}

theorem apart_stringDebug {s t : String} (h : s ≠ t) :
    Apart (stringDebug printable s) (stringDebug printable t) :=
  apart_quoted fun heq => h (String.toList_inj.mp heq)

theorem ClientConfig.apart_debug {c d : ClientConfig} (hthreads : c.dnsThreads = d.dnsThreads)
    (hpath : c.derPath = d.derPath) (h : c ≠ d) : Apart (c.debug printable) (d.debug printable) := by
  obtain ⟨threads, path, password, key⟩ := c
  obtain ⟨threads', path', password', key'⟩ := d
  obtain rfl : threads = threads' := hthreads
  obtain rfl : path = path' := hpath
  by_cases hpassword : password = password'
  · subst hpassword
    have hkey : key ≠ key' := by
      rintro rfl
      exact h rfl
    apply apart_structText
    apply apart_later
    apply apart_later
    apply apart_later
    exact apart_field (apart_stringDebug hkey) _ _ _ _
  · apply apart_structText
    apply apart_later
    apply apart_later
    exact apart_field (apart_stringDebug hpassword) _ _ _ _

theorem SendGridConf.apart_debug {c : SendGridConf} {apiKey : String} (h : c.apiKey ≠ apiKey) :
    Apart (c.debug printable) ({ c with apiKey := apiKey }.debug printable) := by
  apply apart_structText
  apply apart_later
  exact apart_field (apart_stringDebug h) _ _ _ _

/-- Different secrets give different texts. -/
theorem Config.apart_debug {c d : Config} (hsame : c.SameButSecrets d) (h : c ≠ d) :
    Apart (c.debug printable) (d.debug printable) := by
  obtain ⟨key, password, apiKey, rfl⟩ := hsame
  by_cases hclient : c.client = { c.client with secpPrivateKey := key, tlsPassword := password }
  · have happly : c.sendgrid.apiKey ≠ apiKey := by
      rintro rfl
      apply h
      rw [← hclient]
    rw [← hclient]
    apply apart_structText
    iterate 7 apply apart_later
    exact apart_field (SendGridConf.apart_debug happly) _ _ _ _
  · have hapart : Apart (c.client.debug printable)
        ({ c.client with secpPrivateKey := key, tlsPassword := password }.debug printable) :=
      ClientConfig.apart_debug rfl rfl hclient
    apply apart_structText
    apply apart_later
    exact apart_field hapart _ _ _ _

end PaymentsNotifications
