/-! The configuration (`config.rs`). -/

namespace PaymentsNotifications

structure ServerConfig where
  host : String
  port : String
  deriving DecidableEq, Repr

structure ClientConfig where
  dnsThreads : Nat
  derPath : String
  tlsPassword : String
  secpPrivateKey : String
  deriving DecidableEq, Repr

structure RabbitConfig where
  url : String
  threadPoolSize : Nat
  connectionTimeoutSecs : Nat
  connectionPoolSize : Nat
  restartSubscriptionSecs : Nat
  deriving DecidableEq, Repr

structure IosCredentials where
  iosUrl : String
  iosToken : String
  iosUserId : String
  deriving DecidableEq, Repr

structure SendGridConf where
  apiAddr : String
  apiKey : String
  sendMailPath : String
  fromEmail : String
  fromName : String
  deriving DecidableEq, Repr

structure SentryConfig where
  dsn : String
  deriving DecidableEq, Repr

structure GrayLogConfig where
  addr : String
  cluster : Option String
  deriving DecidableEq, Repr

structure FileLogConfig where
  path : String
  deriving DecidableEq, Repr

structure Config where
  server : ServerConfig
  client : ClientConfig
  rabbit : RabbitConfig
  sentry : Option SentryConfig
  graylog : Option GrayLogConfig
  filelog : Option FileLogConfig
  iosCredentials : IosCredentials
  sendgrid : SendGridConf
  deriving DecidableEq, Repr

end PaymentsNotifications
