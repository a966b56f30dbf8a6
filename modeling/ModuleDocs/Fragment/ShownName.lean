import ModuleDocs.Text.LetterCase

/-!
# Names for readers

Documents show a module under a name for readers. Well-known modules have theirs
in a table; for any other the words of the module name are capitalised, and
acronyms written in capitals.
-/

namespace ModuleDocs

namespace Fragment

/-- The names of well-known modules. -/
def knownNames : List (String × String) := [
  ("akka-actor", "Akka Actor"),
  ("akka-http", "Akka HTTP"),
  ("apache-dbcp", "Apache DBCP"),
  ("apache-dubbo", "Apache Dubbo"),
  ("apache-httpasyncclient", "Apache HttpAsyncClient"),
  ("apache-httpclient", "Apache HttpClient"),
  ("apache-shenyu", "Apache ShenYu"),
  ("async-http-client", "AsyncHttpClient (AHC)"),
  ("avaje-jex", "Avaje Jex"),
  ("aws-lambda", "AWS Lambda"),
  ("aws-sdk", "AWS SDK"),
  ("azure-core", "Azure SDK"),
  ("c3p0", "C3P0"),
  ("dropwizard-metrics", "Dropwizard Metrics"),
  ("dropwizard-views", "Dropwizard Views"),
  ("elasticsearch-api-client", "Elasticsearch API client"),
  ("elasticsearch-rest", "Elasticsearch REST client"),
  ("elasticsearch-transport", "Elasticsearch client"),
  ("executors", "java.util.concurrent"),
  ("external-annotations", "Additional tracing annotations"),
  ("google-http-client", "Google HTTP client"),
  ("grpc", "GRPC"),
  ("gwt", "Google Web Toolkit"),
  ("hikaricp", "HikariCP"),
  ("http-url-connection", "Java `HttpURLConnection`"),
  ("java-http-client", "Java HTTP Client"),
  ("java-http-server", "Java HTTP Server"),
  ("java-util-logging", "java.util.logging"),
  ("jaxrs", "JAX-RS (Server)"),
  ("jaxrs-client", "JAX-RS (Client)"),
  ("jaxws", "JAX-WS"),
  ("jboss-logmanager-appender", "JBoss Logging Appender"),
  ("jboss-logmanager-mdc", "JBoss Logging MDC"),
  ("jdbc", "Java JDBC"),
  ("jdbc-datasource", "Java JDBC `DataSource`"),
  ("jetty-httpclient", "Eclipse Jetty HTTP Client"),
  ("jms", "JMS"),
  ("jsf-mojarra", "Eclipse Mojarra"),
  ("jsf-myfaces", "Apache MyFaces"),
  ("jsp", "JSP"),
  ("kotlinx-coroutines", "kotlinx.coroutines"),
  ("ktor", "Ktor"),
  ("kubernetes-client", "K8s Client"),
  ("log4j-appender", "Log4j Appender"),
  ("log4j-context-data", "Log4j Context Data (2.x)"),
  ("log4j-mdc", "Log4j MDC (1.x)"),
  ("logback-appender", "Logback Appender"),
  ("logback-mdc", "Logback MDC"),
  ("methods", "Additional methods tracing"),
  ("mongo", "MongoDB"),
  ("mybatis", "MyBatis"),
  ("nats", "NATS Client"),
  ("okhttp", "OkHttp"),
  ("openai", "OpenAI"),
  ("opensearch-java", "OpenSearch Java"),
  ("opensearch-rest", "OpenSearch REST"),
  ("opentelemetry-api", "OpenTelemetry API"),
  ("opentelemetry-extension-annotations", "OpenTelemetry Extension Annotations"),
  ("opentelemetry-instrumentation-annotations", "OpenTelemetry Instrumentation Annotations"),
  ("oracle-ucp", "Oracle UCP"),
  ("oshi", "OSHI (Operating System and Hardware Information)"),
  ("pekko-actor", "Apache Pekko Actor"),
  ("pekko-http", "Apache Pekko HTTP"),
  ("play-ws", "Play WS HTTP Client"),
  ("r2dbc", "R2DBC"),
  ("rabbitmq", "RabbitMQ Client"),
  ("reactor-kafka", "Reactor Kafka"),
  ("reactor-netty", "Reactor Netty"),
  ("rediscala", "Rediscala"),
  ("rmi", "Java RMI"),
  ("rocketmq-client", "Apache RocketMQ"),
  ("runtime-telemetry", "Java Runtime"),
  ("rxjava", "ReactiveX RxJava"),
  ("scala-fork-join", "Scala ForkJoinPool"),
  ("servlet", "Java Servlet"),
  ("spring-boot-actuator-autoconfigure", "Spring Boot Actuator Autoconfigure"),
  ("spring-cloud-aws", "Spring Cloud AWS"),
  ("spring-cloud-gateway", "Spring Cloud Gateway"),
  ("spring-core", "Spring Core"),
  ("spring-data", "Spring Data"),
  ("spring-integration", "Spring Integration"),
  ("spring-jms", "Spring JMS"),
  ("spring-kafka", "Spring Kafka"),
  ("spring-pulsar", "Spring Pulsar"),
  ("spring-rabbit", "Spring RabbitMQ"),
  ("spring-rmi", "Spring RMI"),
  ("spring-scheduling", "Spring Scheduling"),
  ("spring-security-config", "Spring Security Config"),
  ("spring-web", "Spring Web"),
  ("spring-webflux", "Spring WebFlux"),
  ("spring-webmvc", "Spring Web MVC"),
  ("spring-ws", "Spring Web Services"),
  ("tomcat-jdbc", "Tomcat JDBC"),
  ("twilio", "Twilio SDK"),
  ("vertx-http-client", "Eclipse Vert.x HttpClient"),
  ("vertx-kafka-client", "Eclipse Vert.x Kafka Client"),
  ("vertx-redis-client", "Eclipse Vert.x Redis Client"),
  ("vertx-rx-java", "Eclipse Vert.x RxJava"),
  ("vertx-sql-client", "Eclipse Vert.x SQL Client"),
  ("vertx-web", "Eclipse Vert.x Web"),
  ("vibur-dbcp", "Vibur DBCP"),
  ("xxl-job", "XXL-JOB"),
  ("zio", "ZIO")]

/-- The words of a module name that are written in capitals. -/
def nameAcronyms : List String := [
  "http", "https", "grpc", "rpc", "jms", "jdbc", "jmx", "aws", "sql", "xml", "json", "api",
  "sdk", "jvm", "jsp", "rmi", "url", "uri", "tcp", "udp", "dns", "ssl", "tls", "oauth", "jwt",
  "uuid"]

/-- A word of a module name as readers see it. -/
def shownWord (word : Text) : Text :=
  let lower := word.toLower
  if nameAcronyms.any fun a => a.toList = lower then lower.toUpper else lower.capitalize

/-- The name of a module for readers. -/
def shownName (name : Text) : Text :=
  match knownNames.find? fun e => e.1.toList = name with
  | some e => e.2.toList
  | none => List.intercalate [' '] ((name.splitOn '-').map shownWord)

end Fragment

end ModuleDocs
